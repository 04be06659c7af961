import SatClient.Proofs.Move
import SatClient.Session.Run

/-!
# The course of a session

What a client does and what native solvers do of their own accord are the turns of a session. What
the library does for its client is a chain of moves on a stage: the solvers of the session and the
world around them.

* `Turn`, `Session.turn`, `Session.after`: any steps of a client, between which native solvers call
  back and change as they like
* `Passage`, `Session.course`: turns with their answers and with what happened in them
* `Stage`, `Stage.Move`, `Stage.Moves`: the solvers and the world, and what the library does to them
* **`Session.step_moves`**: a step is a chain of moves, with the functions of `Step.entries`
-/

namespace SatClient

open Relation

variable {σ α : Type}

/-! ## Turns -/

/-- What happens next in a session. -/
inductive Turn (σ : Type) where
  | client (step : Step)
  /-- A native solver calls back of its own accord, and is in another state afterwards. -/
  | native (dialogue : Dialogue σ)

namespace Session

/-- The session after a native solver has called back of its own accord. -/
def visited (d : Dialogue σ) (s : Session σ) : Session σ :=
  { s with world := { s.world with
      native := (d.run s.world.client).1, client := (d.run s.world.client).2 } }

def turn (N : Native σ) (t : Turn σ) (s : Session σ) : Answer × Session σ :=
  match t with
  | .client step => s.step N step
  | .native d => (.done .nothing, s.visited d)

def after (N : Native σ) (turns : List (Turn σ)) (s : Session σ) : Session σ :=
  turns.foldl (fun s t => (s.turn N t).2) s

@[simp] theorem after_cons (N : Native σ) (t : Turn σ) (ts : List (Turn σ)) (s : Session σ) :
    s.after N (t :: ts) = (s.turn N t).2.after N ts := rfl

end Session

/-- Whether a step gave what it was to give. -/
def Answer.isDone : Answer → Bool
  | done _ => true
  | _ => false

/-- A turn that has been taken: where, with which answer, and what it led to. -/
structure Passage (σ : Type) where
  before : Session σ
  turn : Turn σ
  answer : Answer
  after : Session σ

def Passage.events (p : Passage σ) : List Event := p.after.trace.drop p.before.trace.length

/-- The turn from a session. -/
def Session.passage (N : Native σ) (t : Turn σ) (s : Session σ) : Passage σ :=
  ⟨s, t, (s.turn N t).1, (s.turn N t).2⟩

/-- Turns one after the other, each as it was taken. -/
def Session.course (N : Native σ) : List (Turn σ) → Session σ → List (Passage σ)
  | [], _ => []
  | t :: ts, s => s.passage N t :: Session.course N ts (s.turn N t).2

/-! ## Stages -/

/-- The solvers of a session, and the world around them. -/
structure Stage (σ : Type) where
  world : World σ
  solvers : Keyed Int Solver
  /-- A solver that has just been made, and is not yet under a key. -/
  newborn : Option Solver

/-- The stage of a session, with a solver that is not yet under a key. -/
def Session.stageWith (newborn : Option Solver) (s : Session σ) : Stage σ :=
  ⟨s.world, s.solvers, newborn⟩

def Session.stage (s : Session σ) : Stage σ := s.stageWith none

def World.opened (handle : Handle) (w : World σ) : World σ :=
  { w with
    nextIdentity := w.nextIdentity + 1
    client := (w.client.setBridge w.nextIdentity {}).note [.opened w.nextIdentity handle] }

/-- The solver that is made next. -/
def World.newborn (symbols : Symbols) (handle : Handle) (w : World σ) : Solver :=
  { identity := w.nextIdentity, handle, symbols }

namespace Stage

/-- A move of the library on a stage, which calls no functions but those in the list `es`. -/
inductive Move (N : Native σ) (es : List EntryPoint) : Stage σ → Stage σ → Prop
  | tell {st : Stage σ} (n : Notice) : Move N es st { st with world := st.world.note [.notice n] }
  | unload {st : Stage σ} : Move N es st { st with world := st.world.note [.unloaded] }
  /-- A function is called that takes no handle. -/
  | ask {st : Stage σ} {a : Address} {c : Call} (he : c.entry ∈ es) (hc : c.handle? = none) :
      Move N es st { st with world := (st.world.call N none a c).2 }
  | operate {st : Stage σ} {key : Int} {solver : Solver} {f : Focus σ}
      (hk : st.solvers.get? key = some solver) (h : Solver.Move N es ⟨solver, st.world⟩ f) :
      Move N es st { st with world := f.world, solvers := st.solvers.set key f.solver }
  | beget {st : Stage σ} {symbols : Symbols} {handle : Handle} (he : .init ∈ es)
      (hn : st.newborn = none) :
      Move N es st { st with
        world := st.world.opened handle, newborn := some (st.world.newborn symbols handle) }
  | keep {st : Stage σ} {key : Int} {solver : Solver} (hn : st.newborn = some solver)
      (hk : st.solvers.get? key = none) :
      Move N es st { st with solvers := st.solvers.set key solver, newborn := none }
  /-- A solver ends when its native solver has been asked to go. -/
  | finish {st : Stage σ} {key : Int} {solver : Solver} (events : List Event) (he : .release ∈ es)
      (hk : st.solvers.get? key = some solver) (ht : ∀ e ∈ events, ∃ n, e = .notice n) :
      Move N es st { st with
        world := Solver.close
          (((⟨solver, st.world⟩ : Focus σ).call N (.release solver.handle)).2.note events)
        solvers := st.solvers.erase key }

abbrev Moves (N : Native σ) (es : List EntryPoint) : Stage σ → Stage σ → Prop :=
  ReflTransGen (Move N es)

variable {N : Native σ} {es : List EntryPoint}

/-- The moves of an operation are moves on the stage of its solver. By induction on the moves, of
which each leaves its solver under the key. -/
theorem moves_operate {st : Stage σ} {key : Int} {solver : Solver} {f : Focus σ}
    (hk : st.solvers.get? key = some solver) (h : Solver.Moves N es ⟨solver, st.world⟩ f) :
    Moves N es st { st with world := f.world, solvers := st.solvers.set key f.solver } := by
  induction h with
  | refl =>
    rw [Keyed.set_get?_self hk]
  | @tail f₁ f₂ _ hm ih =>
    let st₁ : Stage σ := { st with world := f₁.world, solvers := st.solvers.set key f₁.solver }
    have hs : Move N es st₁ { st₁ with world := f₂.world, solvers := st₁.solvers.set key f₂.solver } :=
      .operate (Keyed.get?_set_self _ _ _) hm
    rw [Keyed.set_set] at hs
    exact ih.tail hs

end Stage

/-! ## Steps as moves -/

/-- The functions that may be called in a step. -/
def Step.entries : Step → List EntryPoint
  | create _ => [.init, .release]
  | signature => [.signature]
  | origin | cloneInterface | dropInterface | countKeepers | optionsEqual .. => []
  | add .. => [.add]
  | assume .. | solve _ => [.solve]
  | val .. => [.val]
  | failed .. => [.failed]
  | setTerminate .. | clearTerminate _ => [.setTerminate]
  | setExport .. | clearExport _ => [.setExport]
  | getOptions _ | getOption .. | hasOption .. => [.options]
  | setOption .. | setByName .. | configure .. => [.options, .setOption]
  | release _ | drop _ => [.release]

/-- The functions that may be called by the library in a turn. -/
def Turn.entries : Turn σ → List EntryPoint
  | client action => action.entries
  | native _ => []

namespace Session

variable {N : Native σ} {es : List EntryPoint} {s : Session σ}

theorem create_apply (symbols : Symbols) (w : World σ) :
    Solver.create N symbols w =
      let called := w.call N none (symbols .init) .init
      if called.1.code.isOk then
        (.ok ((called.2.note [.notice .created]).newborn symbols called.1.handle),
          (called.2.note [.notice .created]).opened called.1.handle)
      else (.error (.failure (.callFailed EntryPoint.init.name called.1.code)),
        called.2.note [.notice (.returned .init called.1.code)]) := by
  simp only [Solver.create, Act.bind_apply, World.invoke, World.check]
  split_ifs <;> rfl

/-- A signature is asked for in one call, and is to be a text. -/
theorem signature_apply (l : Library) (w : World σ) :
    l.signature N w =
      let called := w.call N none (l.symbols .signature) .signature
      if called.1.code.isOk then
        (match called.1.text with
          | none => .error (.failure (.violation .nullSignature))
          | some text => .ok (Text.ofTerminated text), called.2)
      else (.error (.failure (.callFailed EntryPoint.signature.name called.1.code)),
        called.2.note [.notice (.returned .signature called.1.code)]) := by
  simp only [Library.signature, Act.bind_apply, World.invoke, World.check]
  split_ifs
  · dsimp only [Act.pure_apply]
    cases (w.call N none (l.symbols .signature) .signature).1.text <;> rfl
  · rfl

theorem stage_leave (n : Option Solver) (s : Session σ) :
    Stage.Moves N es (s.stageWith n) (s.leave.stageWith n) := by
  unfold leave
  cases s.library with
  | none => exact .refl
  | some l =>
    dsimp only
    split_ifs
    · exact .refl
    · exact .single .unload

theorem runOn_of_get? {key : Int} {solver : Solver} (hk : s.solvers.get? key = some solver)
    (x : Act (Focus σ) α) (answer : Except Stop α → Answer) :
    s.runOn key x answer = (answer (x ⟨solver, s.world⟩).1, { s with
      world := (x ⟨solver, s.world⟩).2.world
      solvers := s.solvers.set key (x ⟨solver, s.world⟩).2.solver }) := by
  rw [runOn, onSolver, hk]

theorem stage_runOn {key : Int} {x : Act (Focus σ) α} (answer : Except Stop α → Answer)
    (hx : ∀ f, Solver.Moves N es f (x f).2) (s : Session σ) :
    Stage.Moves N es s.stage (s.runOn key x answer).2.stage := by
  unfold runOn onSolver
  cases hk : s.solvers.get? key with
  | none => exact .refl
  | some solver =>
    have hm : Stage.Moves N es s.stage _ := Stage.moves_operate hk (hx ⟨solver, s.world⟩)
    exact hm

theorem stage_getOption (key : Int) (name : String) (keep : Option String) (s : Session σ) :
    Stage.Moves N [.options] s.stage (s.getOption N key name keep).2.stage := by
  have h : Stage.Moves N [.options] s.stage
      (s.runOn key (Solver.getOption N name) (.ofResult .option)).2.stage :=
    stage_runOn _ (Solver.moves_getOption name) s
  unfold getOption
  split
  · rename_i hr
    rw [hr] at h
    exact h
  · exact h

/-! ## The end of a solver -/

theorem stage_finish {key : Int} {solver : Solver} {s : Session σ} (n : Option Solver)
    (events : List Event) (he : .release ∈ es) (hk : s.solvers.get? key = some solver)
    (ht : ∀ e ∈ events, ∃ n, e = .notice n) (w : World σ)
    (hw : w = Solver.close
      (((⟨solver, s.world⟩ : Focus σ).call N (.release solver.handle)).2.note events)) :
    Stage.Moves N es (s.stageWith n) ((s.afterEnd key w).stageWith n) := by
  let ended : Session σ := { s with world := w, solvers := s.solvers.erase key }
  have h : Stage.Move N es (s.stageWith n) (ended.stageWith n) := by
    subst hw
    exact .finish events he hk ht
  exact (ReflTransGen.single h).trans (stage_leave n ended)

theorem stage_dropSolver (n : Option Solver) (he : .release ∈ es) (key : Int) (s : Session σ) :
    Stage.Moves N es (s.stageWith n) ((s.dropSolver N key).stageWith n) := by
  unfold dropSolver
  cases hk : s.solvers.get? key with
  | none => exact .refl
  | some solver =>
    let called := (⟨solver, s.world⟩ : Focus σ).call N (.release solver.handle)
    exact stage_finish n [.notice (.dropped called.1.code)] he hk (by simp) _ rfl

/-- A solver that is released ends in any case. -/
theorem release_apply (f : Focus σ) :
    Solver.release N f =
      let called := f.call N (.release f.solver.handle)
      if called.1.code.isOk then
        (.ok (), Solver.close (called.2.note [.notice (.released called.1.code)]))
      else (.error (.failure (.callFailed EntryPoint.release.name called.1.code)),
        Solver.close (called.2.note
          [.notice (.released called.1.code), .notice (.returned .release called.1.code)])) := by
  let called := f.call N (.release f.solver.handle)
  let checked := Solver.check .release called.1.code
    (called.2.note [.notice (.released called.1.code)])
  have hr : Solver.release N f = (checked.1, Solver.close checked.2) := rfl
  rw [hr]
  dsimp only [checked]
  rw [Solver.check_apply]
  split_ifs
  · rfl
  · rw [Focus.note_note]
    rfl

theorem stage_releaseSolver (he : .release ∈ es) (key : Int) (s : Session σ) :
    Stage.Moves N es s.stage (s.releaseSolver N key).2.stage := by
  unfold releaseSolver onSolver
  cases hk : s.solvers.get? key with
  | none => exact .refl
  | some solver =>
    dsimp only
    rw [release_apply]
    dsimp only
    split_ifs
    · exact stage_finish none _ he hk (by simp) _ rfl
    · exact stage_finish none _ he hk (by simp) _ rfl

@[simp] theorem leave_solvers (s : Session σ) : s.leave.solvers = s.solvers := by
  unfold leave
  cases s.library with
  | none => rfl
  | some l =>
    dsimp only
    split_ifs <;> rfl

theorem dropSolver_solvers (key : Int) (s : Session σ) :
    (s.dropSolver N key).solvers = s.solvers.erase key := by
  unfold dropSolver
  cases hk : s.solvers.get? key with
  | none => exact (Keyed.erase_of_get?_eq_none hk).symm
  | some solver => exact leave_solvers _

/-- With the end of a solver its key is free. -/
theorem dropSolver_get? (hs : s.solvers.keys.Nodup) (key : Int) :
    (s.dropSolver N key).solvers.get? key = none := by
  rw [dropSolver_solvers, Keyed.get?_erase hs, if_pos rfl]

/-! ## The beginning of a solver -/

/-- A solver is put under a key, where the one that was there ends. -/
theorem stage_keepSolver (he : .release ∈ es) (hs : s.solvers.keys.Nodup) (l : Library) (key : Int)
    (solver : Solver) :
    Stage.Moves N es (s.stageWith (some solver)) (s.keepSolver N l key solver).stage := by
  let shared : Session σ := { s with library := some l.share }
  have hd : Stage.Moves N es (s.stageWith (some solver))
      ((shared.dropSolver N key).stageWith (some solver)) :=
    stage_dropSolver (some solver) he key shared
  exact hd.tail (.keep rfl (dropSolver_get? (s := shared) hs key))

theorem stage_create (hs : s.solvers.keys.Nodup) (key : Int) :
    Stage.Moves N [.init, .release] s.stage (s.create N key).2.stage := by
  have he : EntryPoint.release ∈ [EntryPoint.init, .release] := by decide
  unfold create onInterface
  cases s.interface? with
  | none => exact .refl
  | some l =>
    let called := s.world.call N none (l.symbols .init) .init
    have ha : Stage.Move N [.init, .release] s.stage { s.stage with world := called.2 } :=
      .ask (by decide) rfl
    dsimp only
    rw [create_apply]
    dsimp only
    split_ifs
    · let made := (called.2.note [.notice .created]).newborn l.symbols called.1.handle
      let opened : Session σ :=
        { s with world := (called.2.note [.notice .created]).opened called.1.handle }
      have ht : Stage.Move N [.init, .release] { s.stage with world := called.2 } _ := .tell .created
      have hb : Stage.Moves N [.init, .release] s.stage (opened.stageWith (some made)) :=
        .head ha (.head ht (.single (.beget (by decide) rfl)))
      exact hb.trans (stage_keepSolver (s := opened) he hs l key made)
    · exact .head ha (.single (.tell _))

/-! ## Every step -/

theorem stage_signature (s : Session σ) (l : Library) :
    Stage.Moves N [.signature] s.stage { s.stage with world := (l.signature N s.world).2 } := by
  let called := s.world.call N none (l.symbols .signature) .signature
  have ha : Stage.Move N [.signature] s.stage { s.stage with world := called.2 } :=
    .ask (by decide) rfl
  rw [signature_apply]
  dsimp only
  split_ifs
  · exact .single ha
  · exact .head ha (.single (.tell _))

/-- **A step of a client is a chain of moves, with the functions that may be called in it.** -/
theorem step_moves (hs : s.solvers.keys.Nodup) (action : Step) :
    Stage.Moves N action.entries s.stage (s.step N action).2.stage := by
  cases action with
  | create key => exact stage_create hs key
  | signature =>
    simp only [step, onInterface]
    cases s.interface? with
    | none => exact .refl
    | some l => exact stage_signature s l
  | origin =>
    simp only [step, onInterface]
    cases s.interface? <;> exact .refl
  | cloneInterface =>
    simp only [step, onInterface]
    cases s.interface? <;> exact .refl
  | dropInterface =>
    simp only [step, dropInterface]
    split_ifs
    · exact .refl
    · exact stage_leave none s
  | countKeepers => exact .refl
  | optionsEqual a b => exact .refl
  | add key lits redundancy =>
    refine stage_runOn _ ?_ s
    intro f
    cases lits <;> exact Solver.moves_addClause _ redundancy f
  | assume key lits =>
    refine stage_runOn _ ?_ s
    intro f
    cases lits <;> exact Solver.moves_solveUnder _ f
  | solve key => exact stage_runOn _ (Solver.moves_solveUnder _) s
  | val key lit =>
    refine stage_runOn _ ?_ s
    intro f
    cases lit <;> exact Solver.moves_litValue _ f
  | failed key lit =>
    refine stage_runOn _ ?_ s
    intro f
    cases lit <;> exact Solver.moves_assumptionFailed _ f
  | setTerminate key closure => exact stage_runOn _ (Solver.moves_setTerminate closure) s
  | setExport key listener maxLength =>
    exact stage_runOn _ (Solver.moves_setExport listener maxLength) s
  | clearTerminate key => exact stage_runOn _ Solver.moves_clearTerminate s
  | clearExport key => exact stage_runOn _ Solver.moves_clearExport s
  | getOptions key => exact stage_runOn _ Solver.moves_getOptions s
  | getOption key name keep => exact stage_getOption key name keep s
  | hasOption key name => exact stage_runOn _ (Solver.moves_hasOption name) s
  | setOption key option value index =>
    simp only [step, setOption, onSolver]
    cases hk : s.solvers.get? key with
    | none => exact .refl
    | some solver =>
      dsimp only
      cases s.option? option with
      | none => exact .refl
      | some o => exact stage_runOn _ (Solver.moves_setOption o value index) s
  | setByName key name value index =>
    exact stage_runOn _ (Solver.moves_setByName name value index) s
  | configure key texts =>
    simp only [step, configure, onSolver]
    cases hk : s.solvers.get? key with
    | none => exact .refl
    | some solver =>
      dsimp only
      cases texts.mapM Setting.read with
      | error m => exact .refl
      | ok settings => exact stage_runOn _ (Solver.moves_configure settings) s
  | release key => exact stage_releaseSolver (List.mem_singleton.mpr rfl) key s
  | drop key =>
    simp only [step, onSolver]
    cases hk : s.solvers.get? key with
    | none => exact .refl
    | some solver => exact stage_dropSolver none (List.mem_singleton.mpr rfl) key s

end Session
end SatClient
