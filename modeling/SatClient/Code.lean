/-!
# Result codes

Each function of the solver interface returns a code, zero for success. A solver may return any
integer, also one that has no name.

* `Code`, `Code.ok`, `Code.isOk`
* `Code.name?`, `Code.text`
-/

namespace SatClient

/-- The code returned by a function of the solver interface. -/
structure Code where
  value : Int32
  deriving DecidableEq, Repr

namespace Code

def ok : Code := ⟨0⟩

/-- A failure that the solver does not explain. -/
def unexplained : Code := ⟨1⟩

instance : Inhabited Code := ⟨ok⟩

def isOk (c : Code) : Bool := c.value == 0

/-- The names of the codes from zero on. -/
def names : List String := [
  "IPASIR2_E_OK",
  "IPASIR2_E_UNKNOWN",
  "IPASIR2_E_UNSUPPORTED",
  "IPASIR2_E_UNSUPPORTED_ARGUMENT",
  "IPASIR2_E_UNSUPPORTED_OPTION",
  "IPASIR2_E_INVALID_STATE",
  "IPASIR2_E_INVALID_ARGUMENT",
  "IPASIR2_E_INVALID_OPTION_VALUE"]

def name? (c : Code) : Option String :=
  if 0 ≤ c.value then names[c.value.toInt.toNat]? else none

def text (c : Code) : String :=
  match c.name? with
  | some name => name ++ " (" ++ toString c.value.toInt ++ ")"
  | none => "unrecognised code " ++ toString c.value.toInt

@[simp] theorem isOk_ok : ok.isOk = true := rfl

theorem isOk_iff (c : Code) : c.isOk = true ↔ c = ok := by
  cases c; simp [isOk, ok]

end Code
end SatClient
