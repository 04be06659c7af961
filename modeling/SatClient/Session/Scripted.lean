import SatClient.Scripted
import SatClient.Session.Run
import SatClient.Session.Trace

/-!
# Sessions with the scripted solver

Each step comes with the responses of the solver to the calls made in it. Between the steps of the
client the solver may call back of its own accord.

* `ScriptedStep`, `ScriptedSession.step`: a step with its responses
* `ScriptedSession.Ending`, `ScriptedSession.run`: a whole session
-/

namespace SatClient

/-- A step of a session with the scripted solver. -/
inductive ScriptedStep where
  /-- The client does something, while the solver responds as given. -/
  | client (step : Step) (responses : EntryPoint → List Scripted.Response)
  /-- The solver last made under a key calls back. -/
  | callBack (key : Int) (request : Scripted.Request)

namespace ScriptedSession

def setScript (script : EntryPoint → List Scripted.Response) (s : Session Scripted) :
    Session Scripted :=
  { s with world := { s.world with native := { s.world.native with script } } }

/-- Lets the solver of a key call back. It need not be there any more: what has ended or has never
been made has nothing to call. -/
def callBack (key : Int) (request : Scripted.Request) (s : Session Scripted) :
    Answer × Session Scripted :=
  s.converse (s.world.native.perform (s.handleOf key) [request] (.done (.done .nothing)))

def step (action : ScriptedStep) (s : Session Scripted) : Answer × Session Scripted :=
  match action with
  | .client step responses =>
    let (answer, s) := (setScript responses s).step Scripted.native step
    (answer, setScript (fun _ => []) s)
  | .callBack key request => callBack key request s

/-- What is found when all is dropped. -/
structure Ending where
  keepers : Option Nat
  trace : List Event

def finish (s : Session Scripted) : Ending :=
  let s := s.forget.finish Scripted.native
  ⟨s.keepers, s.trace⟩

/-- Runs a session: the report of its opening, those of the steps, and the ending. -/
def run (opening : Session.Opening) (steps : List ScriptedStep) : Report × List Report × Ending :=
  let (answer, s) := Session.start opening ({} : Scripted)
  let (reports, s') := runAll (fun t => Session.report (step t)) steps s
  (⟨answer, s.trace⟩, reports, finish s')

end ScriptedSession
end SatClient
