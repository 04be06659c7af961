import SatClient.Payload

/-!
# Literals

To a solver a literal is a 32-bit integer: its variable, negated if the literal is. Zero ends a
clause and is no literal. A client may write literals in another way, which is then converted.

* `Literal`: a way to write literals
* `SignedVar`: a literal as a variable and its sign
* `images`: the integers of a list of literals, up to the first that has none
* `LiteralForm.clause`, `LiteralForm.receive`: a clause as a client takes it, and how it comes to be in a
  buffer
-/

namespace SatClient

/-- A way to write literals. -/
class Literal (L : Type) extends Ord L where
  toNative : L → Except Overflow Int32
  /-- The literal of an integer other than zero. -/
  ofNative : Int32 → Except Overflow L
  /-- How literals in memory are seen as integers, if that needs no conversion. -/
  seenAsNative : Option (L → Int32)
  /-- How integers in memory are seen as literals, if that needs no conversion. -/
  seenFromNative : Option (Int32 → L)
  toNative_of_seen : ∀ see, seenAsNative = some see → ∀ x, toNative x = .ok (see x)
  ofNative_of_seen : ∀ see, seenFromNative = some see → ∀ n, ofNative n = .ok (see n)

/-- An integer is its own literal. -/
instance : Literal Int32 where
  toNative n := .ok n
  ofNative n := .ok n
  seenAsNative := some id
  seenFromNative := some id
  toNative_of_seen := by rintro _ ⟨⟩ _; rfl
  ofNative_of_seen := by rintro _ ⟨⟩ _; rfl

def negate (n : Int32) : Except Overflow Int32 :=
  if n = Int32.minValue then .error .negation else .ok (-n)

/-- A literal as a variable and its sign. -/
structure SignedVar where
  var : Int32
  positive : Bool
  deriving DecidableEq, Repr

namespace SignedVar

/-- Literals are ordered by variable, a negative one before the positive one. -/
protected def compare (a b : SignedVar) : Ordering :=
  (Ord.compare a.var b.var).then (Ord.compare a.positive b.positive)

/-- The variable, negated unless the literal is positive. -/
def toNative (l : SignedVar) : Except Overflow Int32 :=
  if l.positive then .ok l.var else negate l.var

/-- The magnitude of the integer is the variable, and a positive integer a positive literal. -/
def ofNative (n : Int32) : Except Overflow SignedVar :=
  if 0 ≤ n then .ok ⟨n, decide (0 < n)⟩
  else match negate n with
    | .ok var => .ok ⟨var, false⟩
    | .error o => .error o

instance : Literal SignedVar where
  compare := SignedVar.compare
  toNative := toNative
  ofNative := ofNative
  seenAsNative := none
  seenFromNative := none
  toNative_of_seen := by rintro _ ⟨⟩
  ofNative_of_seen := by rintro _ ⟨⟩

end SignedVar

/-- The integers of the literals before the first that has none, and why it has none. -/
def images {L : Type} [Literal L] : List L → List Int32 × Option Overflow
  | [] => ([], none)
  | x :: xs =>
    match Literal.toNative x with
    | .error o => ([], some o)
    | .ok n => let (ns, o) := images xs; (n :: ns, o)

/-- The ways to write literals of which a client chooses one when the program runs. -/
inductive LiteralForm where
  | integer
  | signed
  deriving DecidableEq, Repr

/-- A clause as it is handed to a client. -/
inductive Clause where
  | integers (lits : List Int32)
  | signed (lits : List SignedVar)
  deriving DecidableEq, Repr

def literals {L : Type} [Literal L] : List Int32 → Except Overflow (List L)
  | [] => .ok []
  | n :: ns =>
    match Literal.ofNative n, literals ns with
    | .error o, _ => .error o
    | .ok _, .error o => .error o
    | .ok x, .ok xs => .ok (x :: xs)

/-- Integers as literals, by a view of the same memory where there is one. -/
def viewed {L : Type} [Literal L] (ns : List Int32) : Except Overflow (List L) :=
  match Literal.seenFromNative (L := L) with
  | some see => .ok (ns.map see)
  | none => literals ns

/-- A clause of a solver in the form which a client asked for. -/
def LiteralForm.clause (form : LiteralForm) (ns : List Int32) : Except Overflow Clause :=
  match form with
  | integer => (viewed ns).map .integers
  | signed => (viewed ns).map .signed

/-! ## Literals in a buffer -/

/-- Puts the literals of integers into a buffer, behind those that are there. An integer that has no
literal leaves the buffer with the literals of those before it. -/
def fill {L : Type} (convert : Int32 → Except Overflow L) : List Int32 → List L → Option Overflow × List L
  | [], buffer => (none, buffer)
  | n :: ns, buffer =>
    match convert n with
    | .error o => (some o, buffer)
    | .ok x => fill convert ns (buffer ++ [x])

/-- Integers as literals, by a view of the same memory where there is one. Otherwise the buffer is
emptied and filled with the literals, and is what is read. -/
def received {L : Type} [Literal L] (ns : List Int32) (buffer : List L) :
    Except Overflow (List L) × List L :=
  match Literal.seenFromNative (L := L) with
  | some see => (.ok (ns.map see), buffer)
  | none =>
    match fill Literal.ofNative ns [] with
    | (none, buffer) => (.ok buffer, buffer)
    | (some o, buffer) => (.error o, buffer)

/-- A clause of a solver in the form which a client asked for, and the buffer afterwards. Integers need
none. -/
def LiteralForm.receive (form : LiteralForm) (ns : List Int32) (buffer : List SignedVar) :
    Except Overflow Clause × List SignedVar :=
  match form with
  | integer => ((received ns []).1.map .integers, buffer)
  | signed =>
    let (lits, buffer) := received ns buffer
    (lits.map .signed, buffer)

section

variable {L : Type} [Literal L]

theorem fill_of_literals {ns : List Int32} {xs : List L} (h : literals ns = .ok xs) (buffer : List L) :
    fill Literal.ofNative ns buffer = (none, buffer ++ xs) := by
  induction ns generalizing xs buffer with
  | nil =>
    cases h
    rw [fill, List.append_nil]
  | cons n ns ih =>
    simp only [literals] at h
    split at h <;> cases h
    rename_i x xs hx hxs
    rw [fill, hx]
    exact (ih hxs _).trans (by rw [List.append_assoc, List.singleton_append])

theorem fill_of_overflow {ns : List Int32} {o : Overflow} (h : literals (L := L) ns = .error o)
    (buffer : List L) : (fill Literal.ofNative ns buffer).1 = some o := by
  induction ns generalizing buffer with
  | nil => cases h
  | cons n ns ih =>
    cases hx : Literal.ofNative (L := L) n with
    | error o' =>
      have hfill : (fill (L := L) Literal.ofNative (n :: ns) buffer).1 = some o' := by rw [fill, hx]
      have hlits : literals (L := L) (n :: ns) = .error o' := by rw [literals, hx]
      rw [hfill, Except.error.inj (hlits.symm.trans h)]
    | ok x =>
      have hfill : fill (L := L) Literal.ofNative (n :: ns) buffer =
          fill Literal.ofNative ns (buffer ++ [x]) := by rw [fill, hx]
      rw [hfill]
      refine ih ?_ _
      cases hxs : literals (L := L) ns with
      | error o' =>
        have hlits : literals (L := L) (n :: ns) = .error o' := by rw [literals, hx, hxs]
        rw [Except.error.inj (hlits.symm.trans h)]
      | ok xs =>
        have hlits : literals (L := L) (n :: ns) = .ok (x :: xs) := by rw [literals, hx, hxs]
        cases hlits.symm.trans h

/-- Whatever is in the buffer, the literals are those of the integers. -/
theorem received_fst (ns : List Int32) (buffer : List L) : (received ns buffer).1 = viewed ns := by
  unfold received viewed
  cases Literal.seenFromNative (L := L) with
  | some see => rfl
  | none =>
    dsimp only
    cases h : literals (L := L) ns with
    | error o =>
      have hfill := fill_of_overflow (L := L) h []
      generalize fill (L := L) Literal.ofNative ns [] = filled at hfill ⊢
      obtain ⟨_, _⟩ := filled
      cases hfill
      rfl
    | ok xs =>
      rw [fill_of_literals h]
      rfl

end

theorem LiteralForm.receive_fst (form : LiteralForm) (ns : List Int32) (buffer : List SignedVar) :
    (form.receive ns buffer).1 = form.clause ns := by
  cases form with
  | integer => exact congrArg (Except.map Clause.integers) (received_fst (L := Int32) ns [])
  | signed => exact congrArg (Except.map Clause.signed) (received_fst (L := SignedVar) ns buffer)

end SatClient
