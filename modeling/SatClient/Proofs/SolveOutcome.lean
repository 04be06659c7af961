import SatClient.Proofs.CallBack
import SatClient.Proofs.Growth
import SatClient.Scripted

/-!
# What a solve comes to

The native solver polls and hands out clauses as it likes while it solves, and returns any code and
any result. What its client gets to see follows from its calls back, the code and the result.

* `SolveCall`, `Session.solveCall?`: the native call of a solve, if it is made
* `SolveCall.heeded`, `SolveCall.panic?`: what came of the calls back, and the panic in the cell when
  the native solver returns
* `solveAnswer`: a panic comes before a code, and a code before a result
* **`Session.solve_comes_to`**: answers, runs of closures, and outcome of every solve
-/

namespace SatClient

variable {σ : Type}

/-! ## The native call -/

/-- The native call of a solve: the solver, the world around it, and the integers which it hands
over, with its buffer. -/
structure SolveCall (σ : Type) where
  solver : Solver
  world : World σ
  view : View
  buffer : List Int32

def Lits.view : Lits → List Int32 → Except Overflow View × List Int32
  | integers given => given.view
  | signed given => given.view

/-- The native call of a solve, unless a literal cannot be converted or there are too many. -/
def Lits.solveCall? (lits : Lits) (solver : Solver) (world : World σ) : Option (SolveCall σ) :=
  match lits.view solver.buffer with
  | (.error _, _) => none
  | (.ok view, buffer) =>
    if view.natives.length ≤ maxLength then some { solver, world, view, buffer } else none

/-- The solver that is to solve in a step, and the assumptions. -/
def Step.assumptions? : Step → Option (Int × Lits)
  | solve key => some (key, .integers (.sequence ⟨.slice, .listed []⟩))
  | assume key lits => some (key, lits)
  | _ => none

/-- The native call of a step that solves. -/
def Session.solveCall? (action : Step) (s : Session σ) : Option (SolveCall σ) :=
  action.assumptions?.bind fun (key, lits) =>
    (s.solvers.get? key).bind fun solver => lits.solveCall? solver s.world

namespace SolveCall

variable (N : Native σ) (x : SolveCall σ)

def call : Call :=
  .solve x.solver.handle (some (Buffer.ofView x.view x.buffer)) (Int32.ofNat x.view.natives.length)

def bridge : Bridge := x.world.client.bridge x.solver.identity

def dialogue : Dialogue (Reply × σ) := N.respond (x.solver.symbols .solve) x.call x.world.native

def client : Client :=
  (x.world.client.note [.notice (.solving x.view.natives.toList)]).note
    [.called (some x.solver.identity) (x.solver.symbols .solve) x.call]

def reply : Reply := ((x.dialogue N).run x.client).1.1

/-- The polls and the clauses handed out, through what the solver has registered. -/
def callBacks : List CallBack := (x.dialogue N).ownCallBacks x.solver.identity x.client

/-- What comes of the calls back up to the first panic. -/
def heeded : List Upshot :=
  x.bridge.heeded x.solver.identity ((x.callBacks N).map CallBack.signal)

/-- The panic in the cell when the native solver returns. -/
def panic? : Option Payload := x.bridge.failure.or ((x.heeded N).findSome? Upshot.panic)

/-- The solver with the world around it, when the native solver has returned. -/
def returned : Focus σ :=
  (((⟨x.solver, x.world⟩ : Focus σ).withBuffer x.buffer).note
    [.notice (.solving x.view.natives.toList)]).call N x.call |>.2

end SolveCall

/-- What a solve answers: the panic, or the code if it is not zero, or the result. -/
def solveAnswer (panic? : Option Payload) (reply : Reply) : Answer :=
  match panic? with
  | some p => .stopped (.panic p)
  | none =>
    if reply.code.value = 0 then
      .done (.state
        (if reply.result = some 10 then .holds
        else if reply.result = some 20 then .fails
        else .unknown))
    else .stopped (.failure (.callFailed "ipasir2_solve" reply.code))

/-- What a solve comes to, for its native solver and for its client. -/
structure SolveCall.ComesTo (N : Native σ) (x : SolveCall σ) (p : Passage σ) : Prop where
  bridge : p.before.world.client.bridges.get? x.solver.identity = some x.bridge
  /-- The first panic silences the closures, and answers every poll from then on. -/
  answers : ∀ k hook answer, (x.callBacks N)[k]? = some (.poll hook answer) →
    answer = answerTo (x.heeded N) k
  runs : p.events.filter (Event.isRun x.solver.identity) = (x.heeded N).filterMap Upshot.run
  answer : p.answer = solveAnswer (x.panic? N) (x.reply N)
  /-- The panic has left the cell. -/
  cell : ∃ b, p.after.world.client.bridges.get? x.solver.identity = some b ∧ b.failure = none

/-! ## From the return of the native solver -/

namespace Solver

variable {N : Native σ} {i : Nat}

theorem solveResult_getD (result : Option Int32) :
    solveResult (result.getD 0) =
      if result = some 10 then .holds else if result = some 20 then .fails else .unknown := by
  cases result with
  | none => rfl
  | some r => simp only [solveResult, Option.getD_some, Option.some.injEq]

theorem conclude_answer (reply : Reply) (f : Focus σ) :
    Answer.ofResult .state (conclude reply f).1 = solveAnswer f.bridge.failure reply := by
  rw [conclude_apply]
  unfold solveAnswer
  cases f.bridge.failure with
  | some p => rfl
  | none =>
    have hok : reply.code.isOk = decide (reply.code.value = 0) := rfl
    by_cases hc : reply.code.value = 0
    · simp only [hok, hc, decide_true, if_true, Answer.ofResult, solveResult_getD]
    · simp only [hok, hc, decide_false, Bool.false_eq_true, if_false]
      rfl

/-- When the native solver has returned, no closure is run, and the cell is emptied. -/
theorem conclude_rest (reply : Reply) {f : Focus σ} {b : Bridge}
    (hb : f.world.client.bridges.get? f.solver.identity = some b) :
    (∃ events, (conclude reply f).2.world.client.trace = f.world.client.trace ++ events ∧
      events.filter (Event.isRun i) = []) ∧
    ∃ b', (conclude reply f).2.world.client.bridges.get? f.solver.identity = some b' ∧
      b'.failure = none := by
  have hfb : f.bridge = b := by
    rw [Focus.bridge, Client.bridge, hb]
    rfl
  rw [conclude_apply, hfb]
  cases hf : b.failure with
  | some p =>
    refine ⟨⟨[.resumed f.solver.identity p] ++ [.notice .resuming], ?_, rfl⟩, ?_⟩
    · rw [← List.append_assoc]
      rfl
    · exact ⟨_, Keyed.get?_set_self _ _ _, rfl⟩
  | none =>
    dsimp only
    split_ifs
    · exact ⟨⟨_, rfl, rfl⟩, b, hb, hf⟩
    · exact ⟨⟨_, rfl, rfl⟩, b, hb, hf⟩

theorem solveLits_apply (lits : Lits) (solver : Solver) (world : World σ) :
    solveLits N lits ⟨solver, world⟩ =
      match lits.view solver.buffer with
      | (.error o, buffer) => (.error (.panic o.payload), Focus.withBuffer buffer ⟨solver, world⟩)
      | (.ok view, buffer) =>
        if view.natives.length ≤ maxLength then
          let x : SolveCall σ := { solver, world, view, buffer }
          conclude (x.reply N) (x.returned N)
        else (.error (.failure (.tooLong view.natives.length)),
          Focus.withBuffer buffer ⟨solver, world⟩) := by
  cases lits with
  | integers given => exact solveUnder_apply N given ⟨solver, world⟩
  | signed given => exact solveUnder_apply N given ⟨solver, world⟩

theorem solveLits_some {lits : Lits} {solver : Solver} {world : World σ} {x : SolveCall σ}
    (hx : lits.solveCall? solver world = some x) :
    x.solver = solver ∧ x.world = world ∧
      solveLits N lits ⟨solver, world⟩ = conclude (x.reply N) (x.returned N) := by
  rw [solveLits_apply]
  unfold Lits.solveCall? at hx
  rcases hv : lits.view solver.buffer with ⟨o | v, buffer⟩ <;> rw [hv] at hx
  · cases hx
  · dsimp only at hx ⊢
    split_ifs at hx with hl
    cases hx
    rw [if_pos hl]
    exact ⟨rfl, rfl, rfl⟩

end Solver

/-! ## Solves of a session -/

namespace Session

variable {N : Native σ} {s : Session σ}

theorem step_solve {action : Step} {key : Int} {lits : Lits}
    (ha : action.assumptions? = some (key, lits)) :
    s.step N action = s.runOn key (Solver.solveLits N lits) (.ofResult .state) := by
  cases action with
  | solve k =>
    cases ha
    rfl
  | assume k l =>
    cases ha
    rfl
  | _ => cases ha

/-- What a solve comes to, for a session whose solvers have bridges. -/
theorem solve_passage (hs : s.stage.Sound) {action : Step} {x : SolveCall σ}
    (hx : s.solveCall? action = some x) : x.ComesTo N (s.passage N (.client action)) := by
  obtain ⟨⟨key, lits⟩, ha, hx⟩ := Option.bind_eq_some_iff.mp hx
  obtain ⟨solver, hk, hx⟩ := Option.bind_eq_some_iff.mp hx
  obtain ⟨rfl, hw, hsolve⟩ := Solver.solveLits_some (N := N) hx
  have hstep : s.step N action = (.ofResult .state (Solver.conclude (x.reply N) (x.returned N)).1,
      { s with
        world := (Solver.conclude (x.reply N) (x.returned N)).2.world
        solvers := s.solvers.set key (Solver.conclude (x.reply N) (x.returned N)).2.solver }) := by
    rw [step_solve ha, runOn, onSolver, hk]
    dsimp only
    rw [hsolve]
  -- The bridge is there before the call, and the dialogue leaves its upshots in it.
  obtain ⟨b, hb⟩ := (Keyed.mem_keys_iff _ _).mp (hs.bridge_of_get? hk)
  have hb : s.world.client.bridges.get? x.solver.identity = some b := hb
  have hxb : x.bridge = b := by
    rw [SolveCall.bridge, hw, Client.bridge, hb]
    rfl
  have hcb : x.client.bridges.get? x.solver.identity = some x.bridge := by
    rw [hxb, ← hb, ← hw]
    rfl
  have hh : Heeds x.solver.identity x.bridge (x.callBacks N) x.client ((x.dialogue N).run x.client).2 :=
    (x.dialogue N).run_heeds hcb
  obtain ⟨b', hb', hcell⟩ := hh.cell
  obtain ⟨visits, htrace, hruns⟩ := hh.runs
  have hreturned : (x.returned N).world.client = (((x.dialogue N).run x.client).2).note
      [.returned (some x.solver.identity) x.call (x.reply N)] := rfl
  have hrb : (x.returned N).world.client.bridges.get? (x.returned N).solver.identity = some b' := hb'
  have hfb : (x.returned N).bridge.failure = x.panic? N := by
    rw [Focus.bridge, Client.bridge, hrb]
    exact hcell
  obtain ⟨⟨rest, hrest, hnone⟩, hempty⟩ := Solver.conclude_rest (i := x.solver.identity) (x.reply N) hrb
  have hevents : (s.passage N (.client action)).events =
      [.notice (.solving x.view.natives.toList)] ++
        [.called (some x.solver.identity) (x.solver.symbols .solve) x.call] ++ visits ++
        [.returned (some x.solver.identity) x.call (x.reply N)] ++ rest := by
    refine passage_events ?_
    show (s.step N action).2.trace = _
    rw [hstep]
    show (Solver.conclude (x.reply N) (x.returned N)).2.world.client.trace = _
    rw [hrest, hreturned]
    show ((x.dialogue N).run x.client).2.trace ++ _ ++ rest = _
    rw [htrace, SolveCall.client, hw]
    simp only [Client.note, List.append_assoc]
    rfl
  constructor
  · exact hb.trans (congrArg some hxb.symm)
  · exact hh.answers
  · have hreturn : [Event.returned (some x.solver.identity) x.call (x.reply N)].filter
        (Event.isRun x.solver.identity) = [] := rfl
    rw [hevents]
    simp only [List.filter_append, hnone, hruns, hreturn, List.append_nil]
    rfl
  · show (s.step N action).1 = _
    rw [hstep, ← hfb]
    exact Solver.conclude_answer _ _
  · show ∃ b, (s.step N action).2.world.client.bridges.get? _ = some b ∧ _
    rw [hstep]
    exact hempty

/-- **What a solve comes to.** In every solve that reaches its native solver, closures are run and
polls are answered as the calls back of the native solver require, one after the other until one of
them panics; and the solve stops with the panic in the cell, or else answers by the code and the
result. -/
theorem solve_comes_to (N : Native σ) (opening : Opening) (native : σ) (turns : List (Turn σ))
    (action : Step) (x : SolveCall σ)
    (hx : ((start opening native).2.after N turns).solveCall? action = some x) :
    x.ComesTo N (((start opening native).2.after N turns).passage N (.client action)) :=
  solve_passage (sound_after (sound_start opening native) turns) hx

/-- A solver that polls, hands out a clause and polls twice before it finds a model. -/
def talkative : Scripted where
  script
    | .solve => [{ during := [.poll, .offer (some [1, -2]), .poll, .poll], result := some 10 }]
    | _ => []

/-- The second poll meets a panic, which comes before the model. -/
theorem talkative_solve_panics :
    let s := (start .known talkative).2.after Scripted.native [.client (.create 1),
      .client (.setTerminate 1 ⟨"guard", [.answers false, .panics .blank], 0⟩),
      .client (.setExport 1 ⟨⟨"listener", [], 0⟩, .integer⟩ 2)]
    ∃ x, s.solveCall? (.solve 1) = some x ∧
      x.ComesTo Scripted.native (s.passage Scripted.native (.client (.solve 1))) ∧
      (x.heeded Scripted.native).map Upshot.answer = [0, 0, 1] ∧
      solveAnswer (x.panic? Scripted.native) (x.reply Scripted.native) = .stopped (.panic .blank) :=
  ⟨_, rfl, solve_comes_to _ _ _ _ _ _ rfl, rfl, rfl⟩

end Session
end SatClient
