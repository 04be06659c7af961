import Mathlib.Tactic.SplitIfs
import SatClient.Session.Step

/-!
# What the operations on a solver come to

Each operation is opened once, here. It is a chain of the few things that an operation can do: it
notes an event, keeps a buffer or the options, calls the native solver, or changes its bridge.

* `Focus.note`, `Focus.withBuffer`, `Focus.withOptions`, `Focus.setBridge`, `Focus.call`: those
  things, as functions on states
* `prepared_apply`: literals on their way to the native solver, before the call
* `addClause_apply`, `solveUnder_apply`, `resume_apply`, `litValue_apply`, …: the outcome of each
  operation and the state it leaves
-/

namespace SatClient

variable {σ α β : Type}

namespace Focus

def bridge (f : Focus σ) : Bridge := f.world.client.bridge f.solver.identity

def note (events : List Event) (f : Focus σ) : Focus σ := { f with world := f.world.note events }

def withBuffer (buffer : List Int32) (f : Focus σ) : Focus σ :=
  { f with solver := { f.solver with buffer } }

def withOptions (found : Except Failure Discovered) (f : Focus σ) : Focus σ :=
  { f with solver := { f.solver with options := some found } }

def setBridge (b : Bridge) (f : Focus σ) : Focus σ :=
  { f with world := { f.world with client := f.world.client.setBridge f.solver.identity b } }

def call (N : Native σ) (c : Call) (f : Focus σ) : Reply × Focus σ :=
  ((f.world.call N (some f.solver.identity) (f.solver.symbols c.entry) c).1,
    { f with world := (f.world.call N (some f.solver.identity) (f.solver.symbols c.entry) c).2 })

@[simp] theorem withBuffer_world (buffer : List Int32) (f : Focus σ) :
    (f.withBuffer buffer).world = f.world := rfl

theorem note_note (es es' : List Event) (f : Focus σ) : (f.note es).note es' = f.note (es ++ es') := by
  simp only [note, World.note, Client.note, List.append_assoc]

end Focus

namespace Solver

/-! ## The parts of operations -/

@[simp] theorem current_apply (f : Focus σ) : (current : Act (Focus σ) Solver) f = (.ok f.solver, f) :=
  rfl

@[simp] theorem tell_apply (n : Notice) (f : Focus σ) : tell n f = (.ok (), f.note [.notice n]) := rfl

@[simp] theorem record_apply (events : List Event) (f : Focus σ) :
    record events f = (.ok (), f.note events) := rfl

@[simp] theorem ownBridge_apply (f : Focus σ) :
    (ownBridge : Act (Focus σ) Bridge) f = (.ok f.bridge, f) := rfl

@[simp] theorem invoke_apply (N : Native σ) (c : Call) (f : Focus σ) :
    invoke N c f = (.ok (f.call N c).1, (f.call N c).2) := rfl

@[simp] theorem keepOptions_apply (found : Except Failure Discovered) (f : Focus σ) :
    keepOptions found f = (.ok (), f.withOptions found) := rfl

@[simp] theorem changeBridge_apply (g : Nat → Bridge → Bridge × List Event) (f : Focus σ) :
    changeBridge g f =
      (.ok (), (f.setBridge (g f.solver.identity f.bridge).1).note (g f.solver.identity f.bridge).2) :=
  rfl

/-- A code other than zero is told and makes the operation fail. -/
theorem check_apply (e : EntryPoint) (code : Code) (f : Focus σ) :
    check e code f =
      if code.isOk then (.ok (), f)
      else (.error (.failure (.callFailed e.name code)), f.note [.notice (.returned e code)]) := by
  unfold check around World.check Act.within
  split_ifs <;> rfl

theorem orPanic_ok (a : α) (f : Focus σ) : (Act.orPanic (.ok a) : Act (Focus σ) α) f = (.ok a, f) :=
  rfl

theorem orFail_apply (r : Except Failure α) (f : Focus σ) :
    (Act.orFail r : Act (Focus σ) α) f = (r.mapError .failure, f) := by
  cases r <;> rfl

/-- Literals that cannot be converted, or are too many, stop an operation before its call. -/
theorem prepared_apply {L : Type} [Literal L] (given : Given L) (k : View → Int32 → Act (Focus σ) α)
    (f : Focus σ) :
    (do let v ← prepare given; let length ← nativeLength v; k v length) f =
      match given.view f.solver.buffer with
      | (.error o, buffer) => (.error (.panic o.payload), f.withBuffer buffer)
      | (.ok v, buffer) =>
        if v.natives.length ≤ maxLength then
          k v (Int32.ofNat v.natives.length) (f.withBuffer buffer)
        else (.error (.failure (.tooLong v.natives.length)), f.withBuffer buffer) := by
  rcases hv : given.view f.solver.buffer with ⟨o | v, buffer⟩
  · simp only [Act.bind_apply, prepare, current_apply, hv]
    rfl
  · have h : prepare given f = (.ok v, f.withBuffer buffer) := by
      simp only [Act.bind_apply, prepare, current_apply, hv]
      rfl
    simp only [Act.bind_apply, h, nativeLength]
    split_ifs <;> rfl

/-! ## Clauses, solves and models -/

theorem addClause_apply {L : Type} [Literal L] (N : Native σ) (given : Given L)
    (redundancy : Redundancy) (f : Focus σ) :
    addClause N given redundancy f =
      match given.view f.solver.buffer with
      | (.error o, buffer) => (.error (.panic o.payload), f.withBuffer buffer)
      | (.ok v, buffer) =>
        if v.natives.length ≤ maxLength then
          let told := (f.withBuffer buffer).note [.notice (.adding v.natives.toList redundancy)]
          let called := told.call N (.add f.solver.handle (some (Buffer.ofView v buffer))
            (Int32.ofNat v.natives.length) redundancy.native)
          check .add called.1.code called.2
        else (.error (.failure (.tooLong v.natives.length)), f.withBuffer buffer) := by
  rw [addClause, prepared_apply]
  rfl

/-- A panic in the cell of the bridge is taken from it and goes on. -/
theorem resume_apply (f : Focus σ) :
    resume f =
      match f.bridge.failure with
      | none => (.ok (), f)
      | some p =>
        (.error (.panic p), ((f.setBridge { f.bridge with failure := none }).note
          [.resumed f.solver.identity p]).note [.notice .resuming]) := by
  simp only [resume, Act.bind_apply, ownBridge_apply]
  cases f.bridge.failure <;> rfl

/-- The rest of a solve when the native solver has returned. -/
def conclude (reply : Reply) : Act (Focus σ) TriState := do
  resume
  check .solve reply.code
  tell (.solved (reply.result.getD 0))
  pure (solveResult (reply.result.getD 0))

/-- A panic in the cell comes before the code, and the code before the result. -/
theorem conclude_apply (reply : Reply) (f : Focus σ) :
    conclude reply f =
      match f.bridge.failure with
      | some p =>
        (.error (.panic p), ((f.setBridge { f.bridge with failure := none }).note
          [.resumed f.solver.identity p]).note [.notice .resuming])
      | none =>
        if reply.code.isOk then
          (.ok (solveResult (reply.result.getD 0)), f.note [.notice (.solved (reply.result.getD 0))])
        else (.error (.failure (.callFailed EntryPoint.solve.name reply.code)),
          f.note [.notice (.returned .solve reply.code)]) := by
  simp only [conclude, Act.bind_apply, resume_apply]
  cases f.bridge.failure with
  | some p => rfl
  | none =>
    simp only [check_apply]
    split_ifs <;> rfl

theorem solveUnder_apply {L : Type} [Literal L] (N : Native σ) (given : Given L) (f : Focus σ) :
    solveUnder N given f =
      match given.view f.solver.buffer with
      | (.error o, buffer) => (.error (.panic o.payload), f.withBuffer buffer)
      | (.ok v, buffer) =>
        if v.natives.length ≤ maxLength then
          let told := (f.withBuffer buffer).note [.notice (.solving v.natives.toList)]
          let called := told.call N (.solve f.solver.handle (some (Buffer.ofView v buffer))
            (Int32.ofNat v.natives.length))
          conclude called.1 called.2
        else (.error (.failure (.tooLong v.natives.length)), f.withBuffer buffer) := by
  rw [solveUnder, prepared_apply]
  rfl

/-- A query of a literal: the literal is converted, the native solver is called, and its answer is
read. -/
theorem litValue_apply {L : Type} [Literal L] (N : Native σ) (l : L) (f : Focus σ) :
    litValue N l f =
      match Literal.toNative l with
      | .error o => (.error (.panic o.payload), f)
      | .ok asked =>
        let called := f.call N (.val f.solver.handle asked)
        if called.1.code.isOk then
          ((valueOf asked (called.1.result.getD 0)).mapError .failure, called.2)
        else (.error (.failure (.callFailed EntryPoint.val.name called.1.code)),
          called.2.note [.notice (.returned .val called.1.code)]) := by
  simp only [litValue, Act.bind_apply]
  cases Literal.toNative l with
  | error o => rfl
  | ok asked =>
    simp only [orPanic_ok, current_apply, invoke_apply, check_apply]
    split_ifs
    · exact orFail_apply _ _
    · rfl

theorem assumptionFailed_apply {L : Type} [Literal L] (N : Native σ) (l : L) (f : Focus σ) :
    assumptionFailed N l f =
      match Literal.toNative l with
      | .error o => (.error (.panic o.payload), f)
      | .ok asked =>
        let called := f.call N (.failed f.solver.handle asked)
        if called.1.code.isOk then
          ((failedOf asked (called.1.result.getD 0)).mapError .failure, called.2)
        else (.error (.failure (.callFailed EntryPoint.failed.name called.1.code)),
          called.2.note [.notice (.returned .failed called.1.code)]) := by
  simp only [assumptionFailed, Act.bind_apply]
  cases Literal.toNative l with
  | error o => rfl
  | ok asked =>
    simp only [orPanic_ok, current_apply, invoke_apply, check_apply]
    split_ifs
    · exact orFail_apply _ _
    · rfl

/-! ## Registration of closures -/

def settledTerminate (closure : Option Closure) (f : Focus σ) : Focus σ :=
  (f.setBridge (f.bridge.setTerminate f.solver.identity closure).1).note
    (f.bridge.setTerminate f.solver.identity closure).2

def settledExporter (listener : Option Listener) (f : Focus σ) : Focus σ :=
  (f.setBridge (f.bridge.setExporter f.solver.identity listener).1).note
    (f.bridge.setExporter f.solver.identity listener).2

theorem setTerminate_apply (N : Native σ) (closure : Closure) (f : Focus σ) :
    setTerminate N closure f =
      let taken := f.note [.taken f.solver.identity .terminate closure.tag]
      if f.bridge.terminate.isSome then
        (.ok (), settledTerminate (some closure) (taken.note [.notice .replaced]))
      else
        let called := taken.call N
          (.setTerminate f.solver.handle (some f.solver.identity) (some .trampoline))
        let told := called.2.note [.notice (.setTerminate called.1.code)]
        if called.1.code.isOk then (.ok (), settledTerminate (some closure) told)
        else check .setTerminate called.1.code
          ((settledTerminate none told).note [.dropped f.solver.identity .terminate closure.tag]) := by
  have hb : (f.note [.taken f.solver.identity .terminate closure.tag]).bridge = f.bridge := rfl
  simp only [setTerminate, Act.bind_apply, current_apply, record_apply, ownBridge_apply, hb]
  by_cases h : f.bridge.terminate.isSome
  · simp only [h, if_true]
    rfl
  · simp only [h, Bool.false_eq_true, if_false, Act.bind_apply, invoke_apply, tell_apply,
      settleTerminate, changeBridge_apply]
    split_ifs with hok
    · simp only [hok, if_true, Act.pure_apply, check_apply]
      rfl
    · rfl

theorem clearTerminate_apply (N : Native σ) (f : Focus σ) :
    clearTerminate N f =
      let called := f.call N (.setTerminate f.solver.handle none none)
      check .setTerminate called.1.code
        (settledTerminate none (called.2.note [.notice (.clearedTerminate called.1.code)])) := rfl

theorem setExport_apply (N : Native σ) (listener : Listener) (maxLength : Int32) (f : Focus σ) :
    setExport N listener maxLength f =
      let taken := f.note [.taken f.solver.identity .exporter listener.closure.tag]
      let called := taken.call N
        (.setExport f.solver.handle (some f.solver.identity) maxLength (some .trampoline))
      let told := called.2.note [.notice (.setExport maxLength called.1.code)]
      if called.1.code.isOk then (.ok (), settledExporter (some listener) told)
      else check .setExport called.1.code ((settledExporter none told).note
        [.dropped f.solver.identity .exporter listener.closure.tag]) := by
  simp only [setExport, Act.bind_apply, current_apply, record_apply, invoke_apply, tell_apply,
    settleExporter, changeBridge_apply]
  split_ifs with hok
  · simp only [hok, if_true, Act.pure_apply, check_apply]
    rfl
  · rfl

theorem clearExport_apply (N : Native σ) (f : Focus σ) :
    clearExport N f =
      let called := f.call N (.setExport f.solver.handle none 0 none)
      check .setExport called.1.code
        (settledExporter none (called.2.note [.notice (.clearedExport called.1.code)])) := rfl

/-! ## Options -/

theorem lookForOptions_apply (N : Native σ) (f : Focus σ) :
    lookForOptions N f =
      let called := f.call N (.options f.solver.handle)
      if called.1.code.isOk then
        let found := Discovered.ofTable f.solver.identity called.1.table
        (.ok found, (called.2.note [.notice (.discovered found.options.length)]).withOptions (.ok found))
      else (.error (.failure (.callFailed EntryPoint.options.name called.1.code)),
        (called.2.withOptions (.error (.callFailed EntryPoint.options.name called.1.code))).note
          [.notice (.returned .options called.1.code)]) := by
  simp only [lookForOptions, Act.bind_apply, current_apply, invoke_apply]
  split_ifs with hok
  · rfl
  · simp only [Act.bind_apply, keepOptions_apply, check_apply, hok]
    rfl

/-- The native solver is asked for its options unless that has been done before. -/
theorem discover_apply (N : Native σ) (f : Focus σ) :
    discover N f =
      match f.solver.options with
      | some found => (found.mapError .failure, f)
      | none => lookForOptions N f := by
  simp only [discover, Act.bind_apply, current_apply]
  cases f.solver.options with
  | none => rfl
  | some found => exact orFail_apply found f

theorem setDescribed_apply (N : Native σ) (descriptor : Descriptor) (name : String)
    (value index : Int64) (f : Focus σ) :
    setDescribed N descriptor name value index f =
      let called := (f.note [.notice (.assigning name value index)]).call N
        (.setOption f.solver.handle (some descriptor) value index)
      check .setOption called.1.code called.2 := rfl

theorem setOption_apply (N : Native σ) (option : SolverOption) (value index : Int64) (f : Focus σ) :
    setOption N option value index f =
      (discover N >>= fun d =>
        match if option.owner = f.solver.identity then d.descriptors[option.position]? else none with
        | some descriptor => setDescribed N descriptor option.name value index
        | none => .fail (.unknownOption option.name)) f := rfl

theorem configure_cons_apply (N : Native σ) (s : Setting) (rest : List Setting) (f : Focus σ) :
    configure N (s :: rest) f =
      (setByName N s.name s.value s.index >>= fun _ => configure N rest)
        (f.note [.notice (.applying s)]) := rfl

end Solver
end SatClient
