import SatClient.Literal

/-!
# Sequences of literals

A solver reads a clause from memory: integers side by side. A sequence that lies so already is used
where it is. Any other is written to a scratch buffer, with a zero after it.

* `Items`, `Container`, `Sequence`: what a client gives, with `Sequence.toList`
* `Contiguity`, `Sequence.contiguity`: how a sequence gets to a solver
* `View`: the integers which a solver reads, and where they are
* `Sequence.view`, `viewOfStream`: the view of a sequence, or of literals that come one by one
-/

namespace SatClient

/-- Items one after the other, or one item many times. -/
inductive Items (α : Type) where
  | listed (xs : List α)
  | repeated (count : Nat) (x : α)
  deriving Repr

namespace Items

variable {α β : Type}

def toList : Items α → List α
  | listed xs => xs
  | repeated count x => List.replicate count x

def length : Items α → Nat
  | listed xs => xs.length
  | repeated count _ => count

def map (f : α → β) : Items α → Items β
  | listed xs => listed (xs.map f)
  | repeated count x => repeated count (f x)

def isEmpty (xs : Items α) : Bool := xs.length == 0

@[simp] theorem length_toList (xs : Items α) : xs.toList.length = xs.length := by
  cases xs <;> simp [toList, length]

@[simp] theorem toList_map (f : α → β) (xs : Items α) : (xs.map f).toList = xs.toList.map f := by
  cases xs <;> simp [toList, map]

@[simp] theorem length_map (f : α → β) (xs : Items α) : (xs.map f).length = xs.length := by
  cases xs <;> simp [length, map]

end Items

/-- How a client keeps literals. -/
inductive Container where
  | vector
  | slice
  | array
  | boxed
  /-- A clause of the client's own, which stands for a vector in it. -/
  | named
  | deque
  | linkedList
  | orderedSet
  | reference (target : Container)
  deriving DecidableEq, Repr

namespace Container

/-- Whether the items lie side by side in memory. -/
def isContiguous : Container → Bool
  | vector | slice | array | boxed | named => true
  | deque | linkedList | orderedSet => false
  | reference target => target.isContiguous

/-- Whether the items are kept in order, each once. -/
def isOrdered : Container → Bool
  | orderedSet => true
  | reference target => target.isOrdered
  | _ => false

end Container

/-- Puts an item into a list in increasing order, unless it is there. -/
def insertOrdered {α : Type} [Ord α] (x : α) : List α → List α
  | [] => [x]
  | y :: ys =>
    match compare x y with
    | .lt => x :: y :: ys
    | .eq => y :: ys
    | .gt => y :: insertOrdered x ys

/-- The items in increasing order, each once. -/
def ordered {α : Type} [Ord α] (xs : List α) : List α :=
  xs.foldl (fun ys x => insertOrdered x ys) []

/-- Literals in a container. -/
structure Sequence (L : Type) where
  container : Container
  items : Items L
  deriving Repr

/-- How a sequence gets to a solver. -/
inductive Contiguity where
  /-- The solver reads the memory of the sequence. -/
  | direct (natives : Items Int32)
  /-- The integers are copied. -/
  | copied
  /-- Each literal is converted. -/
  | converted
  deriving Repr

/-- Where a solver reads a sequence. -/
inductive Location where
  /-- In the memory of the client. -/
  | input
  /-- In a buffer of the library. -/
  | scratch
  deriving DecidableEq, Repr

/-- The integers which a solver reads. -/
structure View where
  location : Location
  natives : Items Int32
  deriving Repr

/-- Fills a buffer with the integers of literals and a zero; before a literal that has none the
buffer stays as far as it got. -/
def viewOfStream {L : Type} [Literal L] (xs : List L) : Except Overflow View × List Int32 :=
  match images xs with
  | (ns, none) => (.ok ⟨.scratch, .listed ns⟩, ns ++ [0])
  | (ns, some o) => (.error o, ns)

namespace Sequence

variable {L : Type} [Literal L]

def toList (s : Sequence L) : List L :=
  if s.container.isOrdered then ordered s.items.toList else s.items.toList

/-- Only integers that lie side by side are used where they are. -/
def contiguity (s : Sequence L) : Contiguity :=
  match Literal.seenAsNative (L := L), s.container.isContiguous with
  | some see, true => .direct (s.items.map see)
  | some _, false => .copied
  | none, _ => .converted

/-- The view of a sequence, and the buffer afterwards. An empty sequence has no memory to read, so
its view is in the buffer. -/
def view (s : Sequence L) (buffer : List Int32) : Except Overflow View × List Int32 :=
  match s.contiguity with
  | .direct natives =>
    if natives.isEmpty then viewOfStream s.toList else (.ok ⟨.input, natives⟩, buffer)
  | _ => viewOfStream s.toList

/-- A buffer with the integers of the sequence behind its contents. -/
def appendTo (s : Sequence L) (buffer : List Int32) : Except Overflow (List Int32) :=
  match images s.toList with
  | (ns, none) => .ok (buffer ++ ns)
  | (_, some o) => .error o

end Sequence

/-- Literals given to an operation: a sequence, or literals that come one by one. -/
inductive Given (L : Type) where
  | sequence (s : Sequence L)
  | stream (xs : List L)
  deriving Repr

namespace Given

variable {L : Type} [Literal L]

def toList : Given L → List L
  | sequence s => s.toList
  | stream xs => xs

/-- The view of what is given, and the buffer afterwards. -/
def view : Given L → List Int32 → Except Overflow View × List Int32
  | sequence s, buffer => s.view buffer
  | stream xs, _ => viewOfStream xs

end Given
end SatClient
