import SatClient.Payload

/-!
# Three-valued results

The result of a solve, or the value of a literal: it holds, it fails, or it is not known. There is
no way to take a value that is not known for one that fails.

* `TriState`, `TriState.ofOption`, `TriState.toOption`, `TriState.ofBool`
* `TriState.choose`, `TriState.get`, `TriState.opposite`
* `TriState.text`, `TriState.shown`
-/

namespace SatClient

/-- A truth value which may be unknown. -/
inductive TriState where
  | holds
  | fails
  | unknown
  deriving DecidableEq, Repr

namespace TriState

instance : Inhabited TriState := ⟨unknown⟩

def ofBool : Bool → TriState
  | true => holds
  | false => fails

/-- A value that is known if it is given. -/
def ofOption : Option Bool → TriState
  | some b => ofBool b
  | none => unknown

def toOption : TriState → Option Bool
  | holds => some true
  | fails => some false
  | unknown => none

def isKnown (t : TriState) : Bool := t.toOption.isSome

/-- One of three things, according to the value. -/
def choose {α : Type} (t : TriState) (ifHolds ifFails ifUnknown : α) : α :=
  match t with
  | holds => ifHolds
  | fails => ifFails
  | unknown => ifUnknown

/-- The value of the negated claim; what is unknown stays so. -/
def opposite (t : TriState) : TriState := t.choose fails holds unknown

/-- Insists on a value; there is a panic if it is unknown. -/
def get : TriState → Except Payload Bool
  | holds => .ok true
  | fails => .ok false
  | unknown => .error (.fixed "called `OptionalBool::unwrap()` on an unknown value")

def text (t : TriState) : String := t.choose "true" "false" "unknown"

def shown (t : TriState) : String :=
  "OptionalBool \x7b value: " ++ t.choose "Some(true)" "Some(false)" "None" ++ " \x7d"

end TriState
end SatClient
