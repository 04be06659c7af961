import SatClient.Bridge
import SatClient.Keyed

/-!
# The world of a session

All that a run of the library changes: the state of the native solver, the bridges of the solvers
that are there, and the trace of what happened.

* `Client`, `Client.poll`, `Client.offer`: the part that a native solver reaches by calling back
* `Dialogue.run`: a dialogue of a native solver with a client
* `World`, `World.call`: a call to a native solver
* `Stop`, `Act`: operations, which may stop with a failure or a panic and keep what they changed
-/

namespace SatClient

/-- What a native solver reaches by calling back: the bridges, and the trace. -/
structure Client where
  bridges : Keyed Nat Bridge := []
  trace : List Event := []
  deriving Repr

namespace Client

def note (events : List Event) (c : Client) : Client := { c with trace := c.trace ++ events }

def setBridge (owner : Nat) (b : Bridge) (c : Client) : Client :=
  { c with bridges := c.bridges.set owner b }

def bridge (owner : Nat) (c : Client) : Bridge := (c.bridges.get? owner).getD {}

/-! A bridge that is gone is memory that has been freed. A call back to it is undefined behaviour: what
was in the bridge may be read, and a closure that has been dropped may be run. The event `.dangling` only
marks that this has happened. What becomes of the client is not known from there on, so nothing that is
said of its closures is worth anything unless there is no such event. -/

/-- Answers a poll, with zero for going on. -/
def poll (hook : Hook) (c : Client) : Int32 × Client :=
  match hook.callback with
  | .foreign => (-1, c.note [.foreignAsked, .answered (-1)])
  | .trampoline =>
    match c.bridges.get? hook.data with
    -- undefined behaviour: the bridge has been freed
    | none => (0, c.note [.dangling hook.data, .answered 0])
    | some b =>
      let (stop, after, events) := b.poll hook.data
      let answer : Int32 := if stop then 1 else 0
      (answer, (c.setBridge hook.data after).note (events ++ [.answered answer]))

/-- Takes a clause that is handed out. -/
def offer (hook : Hook) (memory : Option (List Int32)) (c : Client) : Client :=
  match hook.callback with
  | .foreign => c.note [.foreignHeard (((memory.getD []).head?).getD 0), .offered]
  | .trampoline =>
    match c.bridges.get? hook.data with
    -- undefined behaviour: the bridge has been freed
    | none => c.note [.dangling hook.data, .offered]
    | some b =>
      let (after, events) := b.offer hook.data (terminated memory)
      (c.setBridge hook.data after).note (events ++ [.offered])

end Client

/-- Runs a dialogue to its end. -/
def Dialogue.run {α : Type} : Dialogue α → Client → α × Client
  | done a, c => (a, c)
  | poll hook next, c => let (answer, c) := c.poll hook; (next answer).run c
  | offer hook memory next, c => next.run (c.offer hook memory)
  | unregistered slot next, c => next.run (c.note [.unregistered slot])

/-- All that a run of the library changes. Each solver of a client has an identity of its own. -/
structure World (σ : Type) where
  native : σ
  client : Client := {}
  nextIdentity : Nat := 1
  deriving Repr

namespace World

variable {σ : Type}

def note (events : List Event) (w : World σ) : World σ :=
  { w with client := w.client.note events }

/-- Calls a function of a native solver. -/
def call (N : Native σ) (owner : Option Nat) (address : Address) (call : Call) (w : World σ) :
    Reply × World σ :=
  let ((reply, native), client) :=
    (N.respond address call w.native).run (w.client.note [.called owner address call])
  (reply, { w with native, client := client.note [.returned owner call reply] })

end World

/-- Why an operation stops before its end. -/
inductive Stop where
  | failure (e : Failure)
  | panic (p : Payload)
  deriving DecidableEq, Repr

/-- An operation on states of type `S`. One that stops keeps what it has changed. -/
def Act (S α : Type) := S → Except Stop α × S

namespace Act

variable {S T α β : Type}

/-- An operation that only has a result. -/
def result (a : α) : Act S α := fun s => (.ok a, s)

/-- An operation, and another that goes on from its result. -/
def andThen (x : Act S α) (f : α → Act S β) : Act S β := fun s =>
  match x s with
  | (.ok a, s) => f a s
  | (.error e, s) => (.error e, s)

instance : Monad (Act S) where
  pure := result
  bind := andThen

def state : Act S S := fun s => (.ok s, s)

def change (f : S → S) : Act S Unit := fun s => (.ok (), f s)

def stop (e : Stop) : Act S α := fun s => (.error e, s)

def fail (e : Failure) : Act S α := stop (.failure e)

def panic (p : Payload) : Act S α := stop (.panic p)

/-- The value of something computed, or its panic. -/
def orPanic : Except Overflow α → Act S α
  | .ok a => result a
  | .error o => panic o.payload

/-- The value of something computed, or its failure. -/
def orFail : Except Failure α → Act S α
  | .ok a => result a
  | .error e => fail e

/-- An operation on a part of the state. -/
def within (get : S → T) (put : T → S → S) (x : Act T α) : Act S α := fun s =>
  let (a, t) := x (get s)
  (a, put t s)

@[simp] theorem pure_apply (a : α) (s : S) : (pure a : Act S α) s = (.ok a, s) := rfl

theorem bind_apply (x : Act S α) (f : α → Act S β) (s : S) :
    (x >>= f) s = match x s with
      | (.ok a, s) => f a s
      | (.error e, s) => (.error e, s) := rfl

@[simp] theorem state_apply (s : S) : (state : Act S S) s = (.ok s, s) := rfl

@[simp] theorem change_apply (f : S → S) (s : S) : change f s = (.ok (), f s) := rfl

@[simp] theorem stop_apply (e : Stop) (s : S) : (stop e : Act S α) s = (.error e, s) := rfl

@[simp] theorem fail_apply (e : Failure) (s : S) :
    (fail e : Act S α) s = (.error (.failure e), s) := rfl

@[simp] theorem panic_apply (p : Payload) (s : S) :
    (panic p : Act S α) s = (.error (.panic p), s) := rfl

end Act

namespace World

variable {σ : Type}

def record (events : List Event) : Act (World σ) Unit := .change (note events)

def tell (n : Notice) : Act (World σ) Unit := record [.notice n]

/-- Calls a function of a native solver. -/
def invoke (N : Native σ) (owner : Option Nat) (address : Address) (c : Call) :
    Act (World σ) Reply := fun w =>
  let (reply, w) := w.call N owner address c
  (.ok reply, w)

/-- Fails unless a code stands for success. -/
def check (e : EntryPoint) (code : Code) : Act (World σ) Unit :=
  if code.isOk then pure ()
  else do
    tell (.returned e code)
    .fail (.callFailed e.name code)

end World
end SatClient
