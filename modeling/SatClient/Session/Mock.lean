import SatClient.Mock.Respond
import SatClient.Session.Run
import SatClient.Session.Trace

/-!
# Sessions with the mock solver

Between the steps of the client a test tells the mock what to expect, asks it what went wrong, and
calls its functions without the library.

* `MockStep`: what happens in a step
* `RawCall`, `MockSession.raw`: a call without the library
* `MockSession.step`, `MockSession.run`: a step, and a whole session
-/

namespace SatClient

/-- A call made without the library, but for the handle. -/
inductive RawCall where
  | release
  | add (clause : Option (List Int32)) (length redundancy : Int32)
  | solve (assumptions : Option (List Int32)) (length : Int32)
  | val (lit : Int32)
  | failed (lit : Int32)
  | options
  /-- The option is null. -/
  | setOption (value index : Int64)
  /-- Data and callback are null or not. -/
  | setTerminate (data callback : Bool)
  | setExport (data callback : Bool) (maxLength : Int32)
  deriving DecidableEq, Repr

namespace RawCall

def buffer (cells : Option (List Int32)) : Option Buffer := cells.map (⟨.input, ·⟩)

/-- Something that is not null. -/
def given {α : Type} (present : Bool) (a : α) : Option α := if present then some a else none

def call (h : Handle) : RawCall → Call
  | release => .release h
  | add clause length redundancy => .add h (buffer clause) length redundancy
  | solve assumptions length => .solve h (buffer assumptions) length
  | val lit => .val h lit
  | failed lit => .failed h lit
  | options => .options h
  | setOption value index => .setOption h none value index
  | setTerminate data callback => .setTerminate h (given data 0) (given callback .foreign)
  | setExport data callback maxLength =>
    .setExport h (given data 0) maxLength (given callback .foreign)

/-- The integer at the place for the result after a call; before it there is -99. For the options
it says whether there is a table. -/
def written (c : RawCall) (reply : Reply) : Int32 :=
  match c with
  | options => if reply.table.isSome then 1 else 0
  | _ => reply.result.getD (-99)

end RawCall

/-- A step of a session with the mock solver. -/
inductive MockStep where
  /-- The client does something, on the thread of the mock or on another. -/
  | client (step : Step) (onThread : Bool)
  | expectInit (id : Nat)
  | expectInitFailure (code : Code)
  | expect (id : Nat) (call : Mock.Expected)
  | setSignature (text : Option String) (code : Code)
  | setOptions (id : Nat) (offers : List Mock.Offer)
  | simulateTerminate (id : Nat)
  | simulateExport (id : Nat) (clause : List Int32)
  | outstanding
  | faults
  | takeFaults
  | verify
  | dropMock
  | newMock
  /-- A call without the library, with the handle of the solver last made under a key, or with the
  null handle if no key is given. -/
  | raw (key : Option Int) (call : RawCall) (onThread : Bool)
  deriving Repr

namespace MockSession

/-- Puts another host in the place of the one there is. -/
def setHost (host : MockHost) (s : Session MockHost) : Session MockHost :=
  { s with world := { s.world with native := host } }

def host (s : Session MockHost) : MockHost := s.world.native

/-- Runs something as on the thread of the mock, or as on another. -/
def onThread (b : Bool) (f : Session MockHost → Answer × Session MockHost)
    (s : Session MockHost) : Answer × Session MockHost :=
  let (answer, s) := f (setHost { host s with onThread := b } s)
  (answer, setHost { host s with onThread := true } s)

def setMock (m : Option Mock) (s : Session MockHost) : Session MockHost :=
  setHost { host s with mock := m } s

/-- Does something with the mock that there is. -/
def onMock (s : Session MockHost) (f : Mock → Answer × Session MockHost) :
    Answer × Session MockHost :=
  match (host s).mock with
  | none => (.refused .noMock, s)
  | some m => f m

/-- The answer to an operation of a test that gives nothing, or its panic. -/
def answerOf : Except Mock.Trouble Unit → Answer
  | .ok () => .done .nothing
  | .error t => .stopped (.panic t.payload)

/-- Tells the mock something; it stays as it is if that panics. -/
def tell (f : Mock → Except Mock.Trouble Mock) (s : Session MockHost) :
    Answer × Session MockHost :=
  onMock s fun m =>
    match f m with
    | .ok m => (.done .nothing, setMock (some m) s)
    | .error t => (.stopped (.panic t.payload), s)

def ask (f : Mock → Answer) (s : Session MockHost) : Answer × Session MockHost :=
  onMock s fun m => (f m, s)

def faultTexts (m : Mock) : List String := m.faults.map Mock.Fault.text

/-- Lets an instance call back through a registration. -/
def simulate (slot : Slot) (id : Nat) (dialogue : Hook → Dialogue Answer)
    (s : Session MockHost) : Answer × Session MockHost :=
  onMock s fun m =>
    match m.hook slot id with
    | .error t => (.stopped (.panic t.payload), s)
    | .ok hook => s.converse (dialogue hook)

def pollOnce (hook : Hook) : Dialogue Answer :=
  .poll hook fun answer => .done (.done (.flag (answer != 0)))

def offerOnce (clause : List Int32) (hook : Hook) : Dialogue Answer :=
  .offer hook (some (clause ++ [0])) (.done (.done .nothing))

/-- Calls a function of the mock, of which there need be none, without the library. -/
def raw (key : Option Int) (c : RawCall) (s : Session MockHost) : Answer × Session MockHost :=
  let handle := (key.map s.handleOf).getD 0
  let ((reply, host), s) := s.converse ((host s).respond (c.call handle))
  (.returned reply.code (c.written reply), setHost host s)

/-- Drops the mock, if there is one; it must have no faults, and is gone in any case. -/
def dropMock (s : Session MockHost) : Answer × Session MockHost :=
  if s.solvers.isEmpty then
    match (host s).mock with
    | none => (.done .nothing, s)
    | some m => (answerOf m.dropped, setMock none s)
  else (.refused .solversLive, s)

/-- Makes a mock, of which there may be only one. -/
def newMock (s : Session MockHost) : Answer × Session MockHost :=
  if (host s).mock.isSome then (.stopped (.panic Mock.Trouble.mockExists.payload), s)
  else (.done .nothing, setMock (some {}) s)

def step (action : MockStep) (s : Session MockHost) : Answer × Session MockHost :=
  match action with
  | .client step b => onThread b (fun s => s.step MockHost.native step) s
  | .expectInit id => tell (·.expectInit id) s
  | .expectInitFailure code => tell (fun m => .ok (m.expectInitFailure code)) s
  | .expect id call => tell (fun m => .ok (m.expectCall id call)) s
  | .setSignature text code => tell (·.setSignature text code) s
  | .setOptions id offers => tell (·.setOptions id offers) s
  | .simulateTerminate id => simulate .terminate id pollOnce s
  | .simulateExport id clause => simulate .exporter id (offerOnce clause) s
  | .outstanding => ask (fun m => .done (.flag m.isOutstanding)) s
  | .faults => ask (fun m => .done (.texts (faultTexts m))) s
  | .takeFaults =>
    onMock s fun m => (.done (.texts (faultTexts m)), setMock (some { m with faults := [] }) s)
  | .verify => ask (fun m => answerOf m.verify) s
  | .dropMock => dropMock s
  | .newMock => newMock s
  | .raw key c b => onThread b (raw key c) s

/-- What is found when all but the mock is dropped; of the mock, if there is one, whether anything
is outstanding, and the faults. -/
structure Ending where
  keepers : Option Nat
  mock : Option (Bool × List String)
  trace : List Event

def finish (s : Session MockHost) : Ending :=
  let s := s.forget.finish MockHost.native
  ⟨s.keepers, (host s).mock.map fun m => (m.isOutstanding, faultTexts m), s.trace⟩

/-- Runs a session: the report of its opening, those of the steps, and the ending. -/
def run (opening : Session.Opening) (steps : List MockStep) : Report × List Report × Ending :=
  let (answer, s) := Session.start opening ({} : MockHost)
  let (reports, s') := runAll (fun t => Session.report (step t)) steps s
  (⟨answer, s.trace⟩, reports, finish s')

end MockSession
end SatClient
