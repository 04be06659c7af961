import SatClient.Mock.Basic

/-!
# How the mock answers

A call must be the next one expected of its instance. If it is for another function the queue stays
as it is; if it is for that function it is taken from the queue, and then compared.

* `Mock.live`, `Mock.take`: the instance of a handle, and the next call expected of it
* `Mock.perform`: the calls back during a solve
* `Mock.respond`: the answer to a call
* `MockHost`: the mock that is current on a thread, as a native solver
-/

namespace SatClient

namespace Mock

/-- The live instance with an identifier. -/
def live (id : Nat) (m : Mock) : Except Fault Instance :=
  match m.instances.get? id with
  | some i => if i.initialised && !i.released then .ok i else .error .notLive
  | none => .error .noInstance

/-- Takes the next expected call from the queue of an instance, if it is for a function. -/
def take (e : EntryPoint) (id : Nat) (m : Mock) : Except Fault (Expected × Mock) := do
  let i ← m.live id
  match i.expected with
  | [] => .error (.noneExpected e)
  | expected :: rest =>
    if expected.call.entry = e then
      .ok (expected, m.change id fun i => { i with expected := rest })
    else .error (.otherExpected e expected.call.entry)

/-- The literals in a buffer. A null pointer is a fault whatever the length. -/
def literalsOf (e : EntryPoint) (buffer : Option Buffer) (length : Int32) :
    Except Fault (List Int32) :=
  match buffer with
  | none => .error (.nullBuffer e length)
  | some b => if length < 0 then .error (.negativeLength e length) else .ok (b.first length)

/-- A fault if two things differ. -/
def same {α : Type} [DecidableEq α] (actual expected : α) (f : Fault) : Except Fault Unit :=
  if actual = expected then .ok () else .error f

/-- The name of the option at a place, empty if there is none. -/
def nameAt (m : Mock) (d : Option Descriptor) : String :=
  match d.bind fun d => m.tables[d.table]?.bind fun rows => rows[d.position]? with
  | some row => Text.ofTerminated (row.name.getD [])
  | none => ""

/-- The registration that a call leaves, given the one there was. -/
def registered (e : EntryPoint) (registers : Bool) (returns : Code) (data : Option Nat)
    (callback : Option Callback) (before : Option Hook) : Except Fault (Option Hook) :=
  match registers, callback, data with
  | true, some callback, some data => .ok (some ⟨callback, data⟩)
  | true, _, _ => .error (.cleared e)
  | false, none, none => .ok (if returns.isOk then none else before)
  | false, _, _ => .error (.notCleared e)

/-- Makes the calls back of a solve, up to the first that is not as expected. -/
def perform {α : Type} (terminate exporter : Option Hook) (finish : Except Fault Unit → α) :
    List Scene → Dialogue α
  | [] => .done (finish (.ok ()))
  | .poll expect :: rest =>
    match terminate with
    | none => .done (finish (.error (.noCallback (.poll expect))))
    | some hook => .poll hook fun answer =>
      let stop := answer != 0
      if stop = expect then perform terminate exporter finish rest
      else .done (finish (.error (.stopped stop)))
  | .offer clause :: rest =>
    match exporter with
    | none => .done (finish (.error (.noCallback (.offer clause))))
    | some hook =>
      .offer hook (some (clause ++ [0])) (perform terminate exporter finish rest)

/-- The answer of the mock to a fault. -/
def refuse (f : Fault) (m : Mock) : Reply × Mock := ({ code := .unexplained }, m.fault f)

/-- An answer, or that to a fault. -/
def orRefuse (m : Mock) : Except Fault (Reply × Mock) → Reply × Mock
  | .ok answer => answer
  | .error f => m.refuse f

def respondInit (m : Mock) : Reply × Mock :=
  match m.pending with
  | none => m.refuse (.unexpected .init)
  | some ⟨none, code⟩ => ({ code }, { m with pending := none })
  | some ⟨some id, code⟩ =>
    let m := { m with pending := none }
    let m := m.change id fun i => { i with initialised := true }
    let handles := m.handles ++ [id]
    ({ code, handle := handles.length }, { m with handles })

def respondSignature (m : Mock) : Reply × Mock :=
  match m.signature with
  | none => m.refuse (.unexpected .signature)
  | some (text, code) => ({ code, text }, m)

def respondRelease (id : Nat) (m : Mock) : Reply × Mock :=
  match m.live id with
  | .error .noInstance => m.refuse .releaseNoInstance
  | .error _ => m.refuse .releaseNotLive
  | .ok i =>
    if i.expected.isEmpty then
      ({}, m.change id fun i => { i with released := true, terminate := none, exporter := none })
    else m.refuse .unfinished

/-- Answers a call that is expected as described, once it has been taken from the queue. -/
def respondTaken (id : Nat) (call : Call) (e : Expected) (m : Mock) : Dialogue (Reply × Mock) :=
  match call, e.call with
  | .add _ clause length redundancy, .add clause' redundancy' => .done <| m.orRefuse do
    let actual ← literalsOf .add clause length
    same actual clause' (.clause actual clause')
    same redundancy redundancy' (.redundancy redundancy)
    .ok ({ code := e.returns }, m)
  | .solve _ assumptions length, .solve assumptions' result during =>
    match (do
      let actual ← literalsOf .solve assumptions length
      same actual assumptions' (.assumptions actual assumptions') : Except Fault Unit) with
    | .error f => .done (m.refuse f)
    | .ok () =>
      let i := m.instanceOf id
      perform i.terminate i.exporter
        (fun outcome => m.orRefuse do
          outcome
          .ok ({ code := e.returns, result := some result }, m))
        during
  | .val _ lit, .val lit' result => .done <| m.orRefuse do
    same lit lit' (.value lit lit' result e.returns)
    .ok ({ code := e.returns, result := some result }, m)
  | .failed _ lit, .failed lit' result => .done <| m.orRefuse do
    same lit lit' (.failed lit lit' result e.returns)
    .ok ({ code := e.returns, result := some result }, m)
  | .options _, .options =>
    let m := if (m.instanceOf id).table.isSome then m else m.addTable id []
    let table := (m.instanceOf id).table.getD 0
    .done ({ code := e.returns, table := some ⟨table, m.tables[table]?.getD []⟩ }, m)
  | .setOption _ option value index, .setOption name' value' index' => .done <| m.orRefuse do
    let name := m.nameAt option
    same name name' (.optionName name name')
    same value value' (.optionValue value)
    same index index' (.optionIndex index)
    .ok ({ code := e.returns }, m)
  | .setTerminate _ data callback, .setTerminate registers => .done <| m.orRefuse do
    let hook ← registered .setTerminate registers e.returns data callback
      (m.instanceOf id).terminate
    .ok ({ code := e.returns }, m.change id fun i => { i with terminate := hook })
  | .setExport _ data length callback, .setExport registers length' =>
    .done <| m.orRefuse do
      same length length' (.maxLength length)
      let hook ← registered .setExport registers e.returns data callback
        (m.instanceOf id).exporter
      .ok ({ code := e.returns }, m.change id fun i => { i with exporter := hook })
  | call, e => .done (m.refuse (.otherExpected call.entry e.entry))

def respondInstance (id : Nat) (call : Call) (m : Mock) : Dialogue (Reply × Mock) :=
  match call with
  | .release _ => .done (m.respondRelease id)
  | call =>
    match m.take call.entry id with
    | .error f => .done (m.refuse f)
    | .ok (e, m) => respondTaken id call e m

/-- Answers a call. The mock does not hear of a call without an instance which is made on another
thread. -/
def respond (onThread : Bool) (call : Call) (m : Mock) : Dialogue (Reply × Mock) :=
  match call, call.handle? with
  | .init, _ => .done (if onThread then m.respondInit else ({ code := .unexplained }, m))
  | .signature, _ => .done (if onThread then m.respondSignature else ({ code := .unexplained }, m))
  | call, none | call, some 0 =>
    .done (if onThread then m.refuse (.nullSolver call.entry) else ({ code := .unexplained }, m))
  | call, some (h + 1) =>
    match m.handles[h]? with
    | some id => m.respondInstance id call
    | none => .done ({ code := .unexplained }, m)

end Mock

/-- The place of a mock: there is one or none, and calls come from its thread or from another. -/
structure MockHost where
  mock : Option Mock := some {}
  onThread : Bool := true
  deriving Repr

namespace MockHost

/-- Answers a call by the mock; without one, no call succeeds. -/
def respond (call : Call) (host : MockHost) : Dialogue (Reply × MockHost) :=
  match host.mock with
  | none => .done ({ code := .unexplained }, host)
  | some m =>
    (m.respond host.onThread call).map fun (reply, m) => (reply, { host with mock := some m })

/-- The mock as a native solver, which is the same at every address. -/
def native : Native MockHost := ⟨fun _ => respond⟩

end MockHost
end SatClient
