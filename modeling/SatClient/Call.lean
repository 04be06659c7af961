import SatClient.Failure
import SatClient.Sequence
import SatClient.Text.Lossy

/-!
# Calls to a solver

What a client passes to the functions of the solver interface, and what a solver answers. While it
answers, a solver may call back; so an answer is a dialogue.

* `Handle`, `Address`, `Buffer`, `Hook`: the arguments of calls
* `Description`, `OptionTable`, `Descriptor`: options as a solver keeps them
* `Call`, `Reply`: a call, and what it returns and writes
* `Dialogue`: what a solver does until it returns
* `Native`: a solver
-/

namespace SatClient

/-- What a solver gives to a client for use with later calls; zero is the null handle. -/
abbrev Handle := Nat

/-- Where a function is found; zero is the null address. -/
abbrev Address := Nat

/-- Integers in memory, from the place to which a client points. -/
structure Buffer where
  location : Location
  cells : List Int32
  deriving DecidableEq, Repr

namespace Buffer

/-- The memory of a view, given the contents of the scratch buffer. -/
def ofView (v : View) (scratch : List Int32) : Buffer :=
  match v.location with
  | .input => ⟨.input, v.natives.toList⟩
  | .scratch => ⟨.scratch, scratch⟩

/-- The integers within a length. -/
def first (b : Buffer) (length : Int32) : List Int32 := b.cells.take length.toInt.toNat

end Buffer

inductive Slot where
  /-- To ask whether a solve should stop. -/
  | terminate
  | exporter
  deriving DecidableEq, Repr

inductive Callback where
  /-- The function of this library, whose data is the bridge of a solver. -/
  | trampoline
  /-- A function of someone else. -/
  | foreign
  deriving DecidableEq, Repr

/-- A function to call back, and the data to pass to it. -/
structure Hook where
  callback : Callback
  data : Nat
  deriving DecidableEq, Repr

/-- An option as a solver describes it. The description without a name ends a table. -/
structure Description where
  name : Option Text.Bytes
  min : Int64
  max : Int64
  maxState : Int32
  tunable : Int32
  indexed : Int32
  deriving DecidableEq, Repr

/-- The description which ends a table. -/
def Description.last : Description := ⟨none, 0, 0, 0, 0, 0⟩

/-- Descriptions side by side in the memory of a solver. -/
structure OptionTable where
  address : Nat
  rows : List Description
  deriving DecidableEq, Repr

/-- The place of a description: the table, and the position in it. -/
structure Descriptor where
  table : Nat
  position : Nat
  deriving DecidableEq, Repr

/-- A call to a solver. -/
inductive Call where
  | signature
  | init
  | release (handle : Handle)
  | add (handle : Handle) (clause : Option Buffer) (length : Int32) (redundancy : Int32)
  | solve (handle : Handle) (assumptions : Option Buffer) (length : Int32)
  | val (handle : Handle) (lit : Int32)
  | failed (handle : Handle) (lit : Int32)
  | options (handle : Handle)
  | setOption (handle : Handle) (option : Option Descriptor) (value index : Int64)
  | setTerminate (handle : Handle) (data : Option Nat) (callback : Option Callback)
  | setExport (handle : Handle) (data : Option Nat) (maxLength : Int32)
      (callback : Option Callback)
  deriving DecidableEq, Repr

namespace Call

/-- The function that is called. -/
def entry : Call → EntryPoint
  | signature => .signature
  | init => .init
  | release .. => .release
  | add .. => .add
  | solve .. => .solve
  | val .. => .val
  | failed .. => .failed
  | options .. => .options
  | setOption .. => .setOption
  | setTerminate .. => .setTerminate
  | setExport .. => .setExport

/-- The handle that is passed; two functions take none. -/
def handle? : Call → Option Handle
  | signature | init => none
  | release h | add h .. | solve h .. | val h _ | failed h _ | options h | setOption h ..
  | setTerminate h .. | setExport h .. => some h

end Call

structure Reply where
  code : Code := .ok
  /-- The handle that is left; a solver which writes none leaves the null handle. -/
  handle : Handle := 0
  result : Option Int32 := none
  text : Option Text.Bytes := none
  table : Option OptionTable := none
  deriving DecidableEq, Repr

/-- What a solver does from a call until it returns. -/
inductive Dialogue (α : Type) where
  /-- Returns. -/
  | done (result : α)
  /-- Asks whether to stop, and goes on with the answer. -/
  | poll (hook : Hook) (next : Int32 → Dialogue α)
  /-- Hands out a clause: a null pointer, or memory that holds the clause and a zero. -/
  | offer (hook : Hook) (memory : Option (List Int32)) (next : Dialogue α)
  /-- Would call back, and has nothing to call. -/
  | unregistered (slot : Slot) (next : Dialogue α)

/-- A dialogue that ends with another result. -/
def Dialogue.map {α β : Type} (f : α → β) : Dialogue α → Dialogue β
  | done a => done (f a)
  | poll hook next => poll hook fun answer => (next answer).map f
  | offer hook memory next => offer hook memory (next.map f)
  | unregistered slot next => unregistered slot (next.map f)

/-- A solver with states of type `σ`: what the function at an address does when it is called. -/
structure Native (σ : Type) where
  respond : Address → Call → σ → Dialogue (Reply × σ)

end SatClient
