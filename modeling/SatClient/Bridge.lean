import SatClient.Notice

/-!
# Closures and the bridge to them

A solver never holds a closure of a client. It holds a bridge, on which the library puts closures
and from which it takes them. A panic must not run through a solver, so the bridge keeps the first
one in a cell; while the cell is occupied no closure is run and every poll asks to stop.

* `Conduct`, `Closure`, `Closure.conduct`: what a closure does when it is run
* `Event`: what happens between a client and a solver
* `Bridge`, `Bridge.poll`, `Bridge.offer`
* `terminated`: a clause in memory
-/

namespace SatClient

/-- What a closure does when it is run. -/
inductive Conduct where
  | answers (stop : Bool)
  | panics (payload : Payload)
  deriving DecidableEq, Repr

/-- A closure of a client: a name for it, what it does on each run, and how often it has run. The
last thing it does is done again on each further run. -/
structure Closure where
  tag : String
  script : List Conduct
  runs : Nat := 0
  deriving DecidableEq, Repr

namespace Closure

/-- What the closure does on its next run; without a script it answers that nothing is to stop. -/
def conduct (c : Closure) : Conduct :=
  match c.script[c.runs]? with
  | some conduct => conduct
  | none => c.script.getLast?.getD (.answers false)

def afterRun (c : Closure) : Closure := { c with runs := c.runs + 1 }

end Closure

/-- A closure that is handed clauses, with the form in which it takes them. -/
structure Listener where
  closure : Closure
  form : LiteralForm
  deriving DecidableEq, Repr

/-- What happens between a client and a solver. Where an event belongs to one solver, `owner` is
the identity of it; a call without an owner is made before there is a solver, or for none. -/
inductive Event where
  | notice (n : Notice)
  | requested (symbol : String)
  | called (owner : Option Nat) (address : Address) (call : Call)
  | returned (owner : Option Nat) (call : Call) (reply : Reply)
  /-- A solver is there for its client. -/
  | opened (owner : Nat) (handle : Handle)
  /-- A solver is gone for its client. -/
  | closed (owner : Nat)
  /-- The functions of a library are no longer used; what was kept alive for them may go. -/
  | unloaded
  | taken (owner : Nat) (slot : Slot) (tag : String)
  | dropped (owner : Nat) (slot : Slot) (tag : String)
  | asked (owner : Nat) (tag : String)
  | heard (owner : Nat) (tag : String) (clause : Clause)
  /-- A closure panics, or the conversion of a clause for it does. -/
  | raised (owner : Nat) (payload : Payload)
  /-- A panic is taken from the cell of a bridge and goes on. -/
  | resumed (owner : Nat) (payload : Payload)
  /-- A panic that is still in the cell of a bridge goes with the bridge. -/
  | discarded (owner : Nat) (payload : Payload)
  /-- A solver has polled, with this answer. -/
  | answered (answer : Int32)
  /-- A solver has handed out a clause. -/
  | offered
  /-- A solver has nothing to call back. -/
  | unregistered (slot : Slot)
  /-- A function of someone else is asked whether to stop. -/
  | foreignAsked
  /-- A function of someone else is handed a clause, of which it reads the first integer. -/
  | foreignHeard (first : Int32)
  /-- A solver calls back to a bridge that is gone. This is undefined behaviour, of which nothing is
  known; any closure may be run by it. -/
  | dangling (owner : Nat)
  deriving DecidableEq, Repr

/-- The closures of a solver, and the cell for a panic of one of them. -/
structure Bridge where
  terminate : Option Closure := none
  exporter : Option Listener := none
  failure : Option Payload := none
  /-- The buffer in which clauses are converted for the closure that is handed them. It keeps what was
  converted last, up to the literal at which that stopped. -/
  converted : List SignedVar := []
  deriving DecidableEq, Repr

/-- The integers of a clause in memory: those before the first zero, none at a null pointer. -/
def terminated : Option (List Int32) → List Int32
  | none => []
  | some memory => memory.takeWhile (· ≠ 0)

namespace Bridge

/-- Puts a panic into the cell. -/
def capture (slot : Slot) (payload : Payload) (b : Bridge) : Bridge × List Event :=
  ({ b with failure := some payload }, [.notice (.captured slot)])

/-- Answers a poll: whether to stop, the bridge afterwards, and what happened. -/
def poll (owner : Nat) (b : Bridge) : Bool × Bridge × List Event :=
  match b.failure, b.terminate with
  | some _, _ => (true, b, [])
  | none, none => (false, b, [])
  | none, some closure =>
    let ran := { b with terminate := some closure.afterRun }
    match closure.conduct with
    | .answers stop => (stop, ran, [.asked owner closure.tag])
    | .panics payload =>
      let (after, events) := ran.capture .terminate payload
      (true, after, .asked owner closure.tag :: .raised owner payload :: events)

/-- Hands a clause to the closure for clauses: the bridge afterwards, and what happened. The
closure is not run if a literal of the clause cannot be converted for it. -/
def offer (owner : Nat) (natives : List Int32) (b : Bridge) : Bridge × List Event :=
  match b.failure, b.exporter with
  | some _, _ => (b, [])
  | none, none => (b, [])
  | none, some listener =>
    let (received, converted) := listener.form.receive natives b.converted
    let b := { b with converted }
    match received with
    | .error o =>
      let (after, events) := b.capture .exporter o.payload
      (after, .raised owner o.payload :: events)
    | .ok clause =>
      let closure := listener.closure
      let ran := { b with exporter := some { listener with closure := closure.afterRun } }
      let heard := Event.heard owner closure.tag clause
      match closure.conduct with
      | .answers _ => (ran, [heard])
      | .panics payload =>
        let (after, events) := ran.capture .exporter payload
        (after, heard :: .raised owner payload :: events)

/-- The events of dropping what is in a slot. -/
def dropEvents (owner : Nat) (b : Bridge) : Slot → List Event
  | .terminate => b.terminate.toList.map fun c => .dropped owner .terminate c.tag
  | .exporter => b.exporter.toList.map fun l => .dropped owner .exporter l.closure.tag

/-- The event of dropping what is in the cell. -/
def discardEvents (owner : Nat) (b : Bridge) : List Event :=
  b.failure.toList.map (.discarded owner)

/-- Fills or empties the slot for termination; what was there is dropped. -/
def setTerminate (owner : Nat) (closure : Option Closure) (b : Bridge) : Bridge × List Event :=
  ({ b with terminate := closure }, b.dropEvents owner .terminate)

/-- Fills or empties the slot for clauses; what was there is dropped, and with it the buffer. -/
def setExporter (owner : Nat) (listener : Option Listener) (b : Bridge) : Bridge × List Event :=
  ({ b with exporter := listener, converted := [] }, b.dropEvents owner .exporter)

end Bridge
end SatClient
