import SatClient.Setting
import SatClient.Solver.Options
import SatClient.TriState

/-!
# Answers to the steps of a session

* `Value`: what an operation gives its client
* `Refusal`: why a step is not run at all, with `Refusal.text`
* `Answer`, `Answer.ofResult`: what comes of a step
* `Report`: an answer, with all that happened on the way
-/

namespace SatClient

/-- What an operation gives its client. -/
inductive Value where
  | nothing
  /-- A solver, whose handle may be null. -/
  | created (nullHandle : Bool)
  | text (s : String)
  /-- Where the functions were found, and the interface as a record. -/
  | origin (path : Option String) (shown : String)
  | count (n : Nat)
  /-- How many keep alive what was to be kept alive, if there is such a thing. -/
  | keepers (n : Option Nat)
  | state (t : TriState)
  | flag (b : Bool)
  | option (o : SolverOption)
  | options (os : List SolverOption)
  | texts (ss : List String)
  deriving DecidableEq, Repr

/-- Why a step is not run. -/
inductive Refusal where
  | noInterface
  | noMock
  | noSolver
  | noOption
  | solversLive
  deriving DecidableEq, Repr

def Refusal.text : Refusal → String
  | noInterface => "no api"
  | noMock => "no mock"
  | noSolver => "no such solver"
  | noOption => "no such option kept"
  | solversLive => "solvers are live"

/-- What comes of a step. -/
inductive Answer where
  | done (v : Value)
  | stopped (e : Stop)
  | refused (r : Refusal)
  /-- A text was to be a setting and is none. -/
  | malformed (m : Setting.Malformed)
  /-- Settings were applied. -/
  | configured (settings : List Setting) (result : Except Stop Unit)
  /-- An interface was asked for by the names of its functions. -/
  | loaded (result : Except Failure Unit)
  /-- A native function was called without the library: its code, and the integer it wrote. -/
  | returned (code : Code) (written : Int32)

/-- The answer for the result of an operation. -/
def Answer.ofResult {α : Type} (f : α → Value) : Except Stop α → Answer
  | .ok a => done (f a)
  | .error e => stopped e

def Answer.ofUnit (result : Except Stop Unit) : Answer := ofResult (fun _ => .nothing) result

/-- An answer, and all that happened on the way. -/
structure Report where
  answer : Answer
  trace : List Event

end SatClient
