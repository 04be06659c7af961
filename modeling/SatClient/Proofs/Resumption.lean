import SatClient.Proofs.Panic

/-!
# Where a panic goes on

Only a solve lets a panic go on which a closure has left in the cell, and only when its native call
has returned. No other operation stops with a panic once it has called a native solver.

* `Answer.panic?`, `Passage.resumed?`: the panic with which a step stopped, and whether it is one
  that was kept in the cell
* `Act.Calm`: operations that never stop with a panic
* `Session.passage_resumed`: what is taken from the cell in a turn is what the turn stops with
* **`panics_accounted`**: the panics raised and the panics resumed, over all turns
-/

namespace SatClient

variable {σ α β : Type} {N : Native σ} {i : Nat}

/-! ## Panics as answers -/

def panicOf? : Except Stop α → Option Payload
  | .error (.panic p) => some p
  | _ => none

def Answer.panic? : Answer → Option Payload
  | stopped (.panic p) => some p
  | configured _ result => panicOf? result
  | _ => none

/-- The solver that is to solve in a step. -/
def Step.solves? : Step → Option Int
  | solve key | assume key _ => some key
  | _ => none

/-- The solver that is to solve in a turn. -/
def Turn.solves? : Turn σ → Option Int
  | client action => action.solves?
  | native _ => none

/-- Whether a solve of the solver `i` has returned. -/
def Event.endsSolve (i : Nat) : Event → Bool
  | returned owner (.solve ..) _ => owner == some i
  | _ => false

/-- The panic with which a solve of the solver `i` stopped after its native call. -/
def Passage.resumed? (i : Nat) (p : Passage σ) : Option Payload :=
  if p.turn.solves?.bind p.before.stage.identity? = some i ∧ p.events.any (Event.endsSolve i) then
    p.answer.panic?
  else none

theorem panic?_ofResult (f : α → Value) (r : Except Stop α) :
    (Answer.ofResult f r).panic? = panicOf? r := by
  rcases r with (e | p) | a <;> rfl

theorem resumed_of_ofVisit {events : List Event} (h : ∀ e ∈ events, e.OfVisit) :
    resumed i events = [] := by
  refine List.filterMap_eq_nil_iff.mpr ?_
  intro e he
  have := h e he
  cases e <;> first | rfl | cases this

theorem endsSolve_of_ofVisit {events : List Event} (h : ∀ e ∈ events, e.OfVisit) :
    events.any (Event.endsSolve i) = false := by
  refine List.any_eq_false.mpr ?_
  intro e he
  have := h e he
  cases e <;> first | exact Bool.false_ne_true | cases this

/-! ## Operations that never panic -/

/-- An operation that never stops with a panic. -/
def Act.Calm {S : Type} (x : Act S α) : Prop := ∀ s, panicOf? (x s).1 = none

namespace Solver

theorem calm_bind {x : Act (Focus σ) α} {g : α → Act (Focus σ) β} (hx : x.Calm)
    (hg : ∀ a, (g a).Calm) : (x >>= g).Calm := by
  intro f
  have h := hx f
  rw [Act.bind_apply]
  rcases hr : x f with ⟨(e | p) | a, f'⟩ <;> rw [hr] at h
  · rfl
  · cases h
  · exact hg a f'

theorem calm_check (e : EntryPoint) (code : Code) : (check e code : Act (Focus σ) Unit).Calm := by
  intro f
  rw [check_apply]
  split_ifs <;> rfl

theorem calm_setTerminate (closure : Closure) : (setTerminate N closure).Calm := by
  intro f
  rw [setTerminate_apply]
  dsimp only
  split_ifs
  · rfl
  · rfl
  · exact calm_check _ _ _

theorem calm_clearTerminate : (clearTerminate N).Calm := by
  intro f
  rw [clearTerminate_apply]
  exact calm_check _ _ _

theorem calm_setExport (listener : Listener) (maxLength : Int32) :
    (setExport N listener maxLength).Calm := by
  intro f
  rw [setExport_apply]
  dsimp only
  split_ifs
  · rfl
  · exact calm_check _ _ _

theorem calm_clearExport : (clearExport N).Calm := by
  intro f
  rw [clearExport_apply]
  exact calm_check _ _ _

theorem calm_discover : (discover N).Calm := by
  intro f
  rw [discover_apply]
  rcases f.solver.options with _ | (e | found)
  · dsimp only
    rw [lookForOptions_apply]
    dsimp only
    split_ifs <;> rfl
  · rfl
  · rfl

theorem calm_getOptions : (getOptions N).Calm := calm_bind calm_discover fun _ _ => rfl

theorem calm_getOption (name : String) : (getOption N name).Calm := by
  refine calm_bind calm_discover ?_
  intro found f
  cases found.find? name <;> rfl

theorem calm_hasOption (name : String) : (hasOption N name).Calm :=
  calm_bind calm_discover fun _ _ => rfl

theorem calm_setFound (found : Option Descriptor) (name : String) (value index : Int64) :
    (match found with
      | some descriptor => setDescribed N descriptor name value index
      | none => .fail (.unknownOption name) : Act (Focus σ) Unit).Calm := by
  intro f
  cases found with
  | none => rfl
  | some descriptor =>
    dsimp only
    rw [setDescribed_apply]
    exact calm_check _ _ _

theorem calm_setOption (option : SolverOption) (value index : Int64) :
    (setOption N option value index).Calm := by
  refine calm_bind (fun _ => rfl) ?_
  intro s
  refine calm_bind calm_discover ?_
  intro found
  exact calm_setFound _ option.name value index

theorem calm_setByName (name : String) (value index : Int64) :
    (setByName N name value index).Calm := by
  refine calm_bind calm_discover ?_
  intro found
  exact calm_setFound _ name value index

theorem calm_configure (settings : List Setting) : (configure N settings).Calm := by
  induction settings with
  | nil => exact fun _ => rfl
  | cons s rest ih =>
    refine calm_bind (fun _ => rfl) ?_
    intro _
    exact calm_bind (calm_setByName s.name s.value s.index) fun _ => ih

/-! ## Operations that panic before their call -/

variable {L : Type} [Literal L]

/-- An operation that stops with a panic only where nothing has happened. -/
def Early (x : Act (Focus σ) α) : Prop := ∀ f, panicOf? (x f).1 = none ∨ (x f).2.world = f.world

theorem early_addClause (given : Given L) (redundancy : Redundancy) :
    Early (addClause N given redundancy) := by
  intro f
  rw [addClause_apply]
  rcases given.view f.solver.buffer with ⟨o | v, buffer⟩
  · exact .inr rfl
  · dsimp only
    split_ifs
    · exact .inl (calm_check _ _ _)
    · exact .inr rfl

theorem early_litValue (l : L) : Early (litValue N l) := by
  intro f
  rw [litValue_apply]
  cases Literal.toNative l with
  | error o => exact .inr rfl
  | ok asked =>
    refine .inl ?_
    dsimp only
    split_ifs
    · cases valueOf asked _ <;> rfl
    · rfl

theorem early_assumptionFailed (l : L) : Early (assumptionFailed N l) := by
  intro f
  rw [assumptionFailed_apply]
  cases Literal.toNative l with
  | error o => exact .inr rfl
  | ok asked =>
    refine .inl ?_
    dsimp only
    split_ifs
    · cases failedOf asked _ <;> rfl
    · rfl

/-! ## Solves -/

/-- What is taken from the cell when the native solver has returned is what the solve stops with. -/
theorem conclude_panics (reply : Reply) (f : Focus σ) :
    ∃ events, (conclude reply f).2.world.client.trace = f.world.client.trace ++ events ∧
      ∀ i, events.any (Event.endsSolve i) = false ∧ resumed i events =
        (if f.solver.identity = i then panicOf? (conclude reply f).1 else none).toList := by
  rw [conclude_apply]
  cases f.bridge.failure with
  | some p =>
    refine ⟨[.resumed f.solver.identity p] ++ [.notice .resuming], ?_, ?_⟩
    · rw [← List.append_assoc]
      rfl
    intro i
    refine ⟨rfl, ?_⟩
    by_cases hi : f.solver.identity = i <;> simp [resumed, Event.resumed?, panicOf?, hi]
  | none =>
    dsimp only
    split_ifs
    · exact ⟨_, rfl, fun i => ⟨rfl, by simp [resumed, Event.resumed?, panicOf?]⟩⟩
    · exact ⟨_, rfl, fun i => ⟨rfl, by simp [resumed, Event.resumed?, panicOf?]⟩⟩

/-- An operation that takes from the cell what it stops with, if a solve has returned, and has
done nothing otherwise. -/
def Resumes (x : Act (Focus σ) α) : Prop :=
  ∀ f, ∃ events, (x f).2.world.client.trace = f.world.client.trace ++ events ∧
    (events = [] ∨ events.any (Event.endsSolve f.solver.identity)) ∧
    ∀ i, resumed i events =
      (if f.solver.identity = i ∧ events.any (Event.endsSolve i) then panicOf? (x f).1 else none).toList

theorem resumes_solveUnder (given : Given L) : Resumes (solveUnder N given) := by
  intro f
  rw [solveUnder_apply]
  rcases given.view f.solver.buffer with ⟨o | v, buffer⟩
  · exact ⟨[], by simp, .inl rfl, by simp [resumed]⟩
  · dsimp only
    split_ifs
    · let told := (f.withBuffer buffer).note [.notice (.solving v.natives.toList)]
      let c : Call :=
        .solve f.solver.handle (some (Buffer.ofView v buffer)) (Int32.ofNat v.natives.length)
      let called := told.call N c
      obtain ⟨visits, ht, hv⟩ :=
        World.call_events N (some f.solver.identity) (f.solver.symbols c.entry) c told.world
      obtain ⟨rest, hr, hrest⟩ := conclude_panics called.1 called.2
      have hid : called.2.solver.identity = f.solver.identity := rfl
      let before : List Event := [.notice (.solving v.natives.toList)] ++
        ([.called (some f.solver.identity) (f.solver.symbols c.entry) c] ++ visits ++
          [.returned (some f.solver.identity) c called.1])
      have hend (i : Nat) : (before ++ rest).any (Event.endsSolve i) = (f.solver.identity == i) := by
        simp [before, (hrest i).1, endsSolve_of_ofVisit hv, Event.endsSolve, c]
      have hres (i : Nat) : resumed i (before ++ rest) = resumed i rest := by
        have hc : resumed i before = [] := by
          simp only [before, resumed_append, resumed_of_ofVisit hv]
          rfl
        rw [resumed_append, hc, List.nil_append]
      refine ⟨before ++ rest, ?_, .inr ?_, ?_⟩
      · rw [← List.append_assoc]
        refine hr.trans (congrArg (· ++ rest) ?_)
        exact ht.trans (List.append_assoc ..)
      · rw [hend, beq_self_eq_true]
      · intro i
        rw [hres, (hrest i).2, hend, hid]
        simp only [beq_iff_eq, and_self]
        rfl
    · exact ⟨[], by simp, .inl rfl, by simp [resumed]⟩

end Solver

/-! ## Turns -/

/-- A step that only reads, or fails before it calls a native solver. -/
theorem Session.runOn_early {key : Int} {x : Act (Focus σ) α} (f : α → Value) (hx : Solver.Early x)
    (s : Session σ) :
    (s.runOn key x (.ofResult f)).1.panic? = none ∨
      (s.runOn key x (.ofResult f)).2.trace = s.trace := by
  unfold runOn onSolver
  cases s.solvers.get? key with
  | none => exact .inl rfl
  | some solver =>
    rcases hx ⟨solver, s.world⟩ with h | h
    · exact .inl ((panic?_ofResult f _).trans h)
    · exact .inr (congrArg (fun w : World σ => w.client.trace) h)

theorem Session.runOn_calm {key : Int} {x : Act (Focus σ) α} {answer : Except Stop α → Answer}
    (ha : ∀ r, (answer r).panic? = panicOf? r) (hx : x.Calm) (s : Session σ) :
    (s.runOn key x answer).1.panic? = none := by
  unfold runOn onSolver
  cases s.solvers.get? key with
  | none => rfl
  | some solver => exact (ha _).trans (hx ⟨solver, s.world⟩)

theorem Session.step_early (s : Session σ) {action : Step} (ha : action.solves? = none) :
    (s.step N action).1.panic? = none ∨ (s.step N action).2.trace = s.trace := by
  cases action with
  | create key =>
    refine .inl ?_
    simp only [step, create, onInterface]
    cases s.interface? with
    | none => rfl
    | some l =>
      dsimp only
      rw [create_apply]
      dsimp only
      split_ifs <;> rfl
  | signature =>
    refine .inl ?_
    simp only [step, onInterface]
    cases s.interface? with
    | none => rfl
    | some l =>
      dsimp only
      rw [panic?_ofResult, Library.signature, Act.bind_apply, World.invoke]
      dsimp only
      rw [Act.bind_apply, World.check]
      split_ifs
      · dsimp only [Act.pure_apply]
        cases (s.world.call N none (l.symbols .signature) .signature).1.text <;> rfl
      · rfl
  | origin =>
    refine .inl ?_
    simp only [step, onInterface]
    cases s.interface? <;> rfl
  | cloneInterface =>
    refine .inl ?_
    simp only [step, onInterface]
    cases s.interface? <;> rfl
  | dropInterface => exact .inl rfl
  | countKeepers => exact .inl rfl
  | add key lits redundancy =>
    refine runOn_early _ ?_ s
    intro f
    cases lits <;> exact Solver.early_addClause _ redundancy f
  | assume key lits => cases ha
  | solve key => cases ha
  | val key lit =>
    refine runOn_early _ ?_ s
    intro f
    cases lit <;> exact Solver.early_litValue _ f
  | failed key lit =>
    refine runOn_early _ ?_ s
    intro f
    cases lit <;> exact Solver.early_assumptionFailed _ f
  | setTerminate key closure => exact .inl (runOn_calm (panic?_ofResult _) (Solver.calm_setTerminate closure) s)
  | setExport key listener maxLength =>
    exact .inl (runOn_calm (panic?_ofResult _) (Solver.calm_setExport listener maxLength) s)
  | clearTerminate key => exact .inl (runOn_calm (panic?_ofResult _) Solver.calm_clearTerminate s)
  | clearExport key => exact .inl (runOn_calm (panic?_ofResult _) Solver.calm_clearExport s)
  | getOptions key => exact .inl (runOn_calm (panic?_ofResult _) Solver.calm_getOptions s)
  | getOption key name keep =>
    have h : (s.runOn key (Solver.getOption N name) (.ofResult .option)).1.panic? = none :=
      runOn_calm (panic?_ofResult _) (Solver.calm_getOption name) s
    refine .inl ?_
    simp only [step, getOption]
    split
    · rfl
    · exact h
  | hasOption key name => exact .inl (runOn_calm (panic?_ofResult _) (Solver.calm_hasOption name) s)
  | setOption key option value index =>
    refine .inl ?_
    simp only [step, setOption, onSolver]
    cases s.solvers.get? key with
    | none => rfl
    | some solver =>
      dsimp only
      cases s.option? option with
      | none => rfl
      | some o => exact runOn_calm (panic?_ofResult _) (Solver.calm_setOption o value index) s
  | setByName key name value index =>
    exact .inl (runOn_calm (panic?_ofResult _) (Solver.calm_setByName name value index) s)
  | optionsEqual a b =>
    refine .inl ?_
    simp only [step, optionsEqual]
    split <;> rfl
  | configure key texts =>
    refine .inl ?_
    simp only [step, configure, onSolver]
    cases s.solvers.get? key with
    | none => rfl
    | some solver =>
      dsimp only
      cases texts.mapM Setting.read with
      | error m => rfl
      | ok settings => exact runOn_calm (fun _ => rfl) (Solver.calm_configure settings) s
  | release key =>
    refine .inl ?_
    simp only [step, releaseSolver, onSolver]
    cases s.solvers.get? key with
    | none => rfl
    | some solver => exact (panic?_ofResult _ _).trans (Solver.calm_check _ _ _)
  | drop key =>
    refine .inl ?_
    simp only [step, onSolver]
    cases s.solvers.get? key <;> rfl

theorem Session.runOn_resumes {key : Int} {x : Act (Focus σ) α} (f : α → Value)
    (hx : Solver.Resumes x) (s : Session σ) :
    ∃ events, (s.runOn key x (.ofResult f)).2.trace = s.trace ++ events ∧
      (events = [] ∨ ∃ i, s.stage.identity? key = some i ∧ events.any (Event.endsSolve i)) ∧
      ∀ i, resumed i events = (if s.stage.identity? key = some i ∧ events.any (Event.endsSolve i)
        then (s.runOn key x (.ofResult f)).1.panic? else none).toList := by
  unfold runOn onSolver
  cases hk : s.solvers.get? key with
  | none => exact ⟨[], (List.append_nil _).symm, .inl rfl, by simp [resumed]⟩
  | some solver =>
    have hid : s.stage.identity? key = some solver.identity := congrArg (Option.map _) hk
    obtain ⟨events, ht, he, hr⟩ := hx ⟨solver, s.world⟩
    refine ⟨events, ht, he.imp_right fun h => ⟨_, hid, h⟩, ?_⟩
    intro i
    rw [hr i, hid, panic?_ofResult]
    simp only [Option.some.injEq]

/-- The trace of a solve, and what it stops with. -/
theorem Session.step_resumes (s : Session σ) {action : Step} {key : Int}
    (ha : action.solves? = some key) :
    ∃ events, (s.step N action).2.trace = s.trace ++ events ∧
      (events = [] ∨ ∃ i, s.stage.identity? key = some i ∧ events.any (Event.endsSolve i)) ∧
      ∀ i, resumed i events = (if s.stage.identity? key = some i ∧ events.any (Event.endsSolve i)
        then (s.step N action).1.panic? else none).toList := by
  cases action with
  | solve k =>
    cases ha
    exact runOn_resumes _ (Solver.resumes_solveUnder _) s
  | assume k lits =>
    cases ha
    refine runOn_resumes _ ?_ s
    cases lits <;> exact Solver.resumes_solveUnder _
  | _ => cases ha

namespace Session

variable {s : Session σ}

theorem resumed_of_no_solve (hs : s.solvers.keys.Nodup) {t : Turn σ} (ht : t.solves? = none)
    (i : Nat) : resumed i (s.passage N t).events = [] := by
  have hn : EntryPoint.solve ∉ t.entries := by
    cases t with
    | native d => exact List.not_mem_nil
    | client action =>
      cases action <;> simp [Turn.entries, Step.entries] <;> cases ht
  refine List.filterMap_eq_nil_iff.mpr ?_
  intro e he
  have ha := (turn_grows (N := N) hs t).2 e he
  cases e with
  | resumed j p => exact absurd ha hn
  | _ => rfl

/-- **What is taken from a cell in a turn is what the turn stops with.** -/
theorem passage_resumed (hs : s.solvers.keys.Nodup) (t : Turn σ) (i : Nat) :
    resumed i (s.passage N t).events = ((s.passage N t).resumed? i).toList := by
  have hsolves : (s.passage N t).turn.solves? = t.solves? := rfl
  cases ht : t.solves? with
  | none =>
    rw [resumed_of_no_solve hs ht, Passage.resumed?, hsolves, ht, if_neg]
    · rfl
    · rintro ⟨h, -⟩
      cases h
  | some key =>
    cases t with
    | native d => cases ht
    | client action =>
      obtain ⟨events, htr, -, hr⟩ := s.step_resumes (N := N) ht
      have he : (s.passage N (.client action)).events = events := passage_events htr
      rw [Passage.resumed?, hsolves, ht, he]
      exact hr i

theorem passage_panic (t : Turn σ) {p : Payload}
    (hp : (s.passage N t).answer.panic? = some p) :
    (∃ i, (s.passage N t).resumed? i = some p) ∨ (s.passage N t).events = [] := by
  cases t with
  | native d => cases hp
  | client action =>
    cases ha : action.solves? with
    | none =>
      rcases s.step_early (N := N) ha with h | h
      · rw [show (s.passage N (.client action)).answer = (s.step N action).1 from rfl, h] at hp
        cases hp
      · exact .inr (passage_events (h.trans (List.append_nil _).symm))
    | some key =>
      obtain ⟨events, htr, he, -⟩ := s.step_resumes (N := N) ha
      have hev : (s.passage N (.client action)).events = events := passage_events htr
      rw [hev]
      rcases he with he | ⟨i, hi, he⟩
      · exact .inr he
      · refine .inl ⟨i, ?_⟩
        rw [Passage.resumed?, if_pos]
        · exact hp
        · rw [hev]
          refine ⟨?_, he⟩
          rw [show (s.passage N (.client action)).turn.solves? = some key from ha]
          exact hi

/-! ## All turns -/

/-- What is taken from a cell in turns is what the turns stop with. By induction on the turns. -/
theorem resumed_after (hs : s.stage.Sound) (turns : List (Turn σ)) (i : Nat) :
    resumed i (s.after N turns).trace =
      resumed i s.trace ++ (s.course N turns).filterMap (·.resumed? i) := by
  induction turns generalizing s with
  | nil => exact (List.append_nil _).symm
  | cons t ts ih =>
    have ht : resumed i (s.turn N t).2.trace =
        resumed i s.trace ++ ((s.passage N t).resumed? i).toList := by
      rw [passage_trace hs.keys, resumed_append, passage_resumed hs.keys]
    rw [after_cons, ih (sound_turn hs t), ht, List.append_assoc]
    congr 1
    show _ = (s.passage N t :: (s.turn N t).2.course N ts).filterMap _
    rw [List.filterMap_cons]
    cases (s.passage N t).resumed? i <;> rfl

theorem calls_after (hs : s.stage.Sound) (hc : callsMade s.trace = callsReturned s.trace)
    (turns : List (Turn σ)) :
    callsMade (s.after N turns).trace = callsReturned (s.after N turns).trace := by
  induction turns generalizing s with
  | nil => exact hc
  | cons t ts ih =>
    refine ih (sound_turn hs t) ?_
    rw [passage_trace hs.keys, callsMade_append, callsReturned_append, hc,
      (turn_grows (N := N) hs.keys t).1]

/-- Turns keep the ledger of every solver. -/
theorem ledger_turn {left : Option Payload} (hs : s.stage.Sound)
    (hl : Client.Ledger i left s.world.client) (t : Turn σ) :
    ∃ left', Client.Ledger i left' (s.turn N t).2.world.client := by
  cases t with
  | client action =>
    exact Stage.Moves.induct (P := fun st => ∃ left, Client.Ledger i left st.world.client)
      (fun _ _ hm hst ⟨_, hl⟩ => hm.ledger hst hl) (step_moves hs.keys action) hs ⟨left, hl⟩
  | native d => exact (d.run_visits s.world.client).ledger hl

theorem ledger_after {left : Option Payload} (hs : s.stage.Sound)
    (hl : Client.Ledger i left s.world.client) (turns : List (Turn σ)) :
    ∃ left', Client.Ledger i left' (s.after N turns).world.client := by
  induction turns generalizing s left with
  | nil => exact ⟨left, hl⟩
  | cons t ts ih =>
    obtain ⟨left', hl'⟩ := ledger_turn (N := N) hs hl t
    exact ih (sound_turn hs t) hl'

theorem ledger_start (opening : Opening) (native : σ) :
    Client.Ledger i none (start opening native).2.world.client ∧
      Silent i (start opening native).2.trace ∧
      ∀ e ∈ (start opening native).2.trace, e.owner? = none ∧ e.IsNote := by
  obtain ⟨trace, hs, ho⟩ := start_stage opening native
  have hc : (start opening native).2.world.client = { trace } :=
    congrArg (fun st : Stage σ => st.world.client) hs
  have hsilent : Silent i trace := by
    refine silent_of_owner? ?_
    intro e he
    rw [(ho e he).1]
    exact nofun
  have ht : (start opening native).2.trace = trace := congrArg Client.trace hc
  rw [hc, ht]
  refine ⟨⟨?_, ?_, ?_⟩, hsilent, ho⟩
  · rw [hsilent.raised, hsilent.resumed]
    rfl
  · intro b hb
    cases hb
  · intro _
    exact hsilent.discarded

/-- The panic in the cell of a solver. -/
def cell? (i : Nat) (s : Session σ) : Option Payload :=
  (s.world.client.bridges.get? i).bind Bridge.failure

/-- A panic in a cell stays there in a turn, unless a solve takes it or the solver ends. -/
theorem cell_of_turn {left : Option Payload} {x : Payload} (hs : s.stage.Sound)
    (hl : Client.Ledger i left s.world.client) (t : Turn σ) (hx : s.cell? i = some x) :
    let p := s.passage N t
    p.resumed? i = some x ∨
      p.resumed? i = none ∧
        (p.after.cell? i = some x ∨
          p.after.world.client.bridges.get? i = none ∧ discarded i p.events = [x]) := by
  intro p
  obtain ⟨left', hl'⟩ := ledger_turn (N := N) hs hl t
  obtain ⟨b, hb, hf⟩ := Option.bind_eq_some_iff.mp hx
  obtain ⟨hleft, hd⟩ := hl.cell b hb
  have htr : (s.turn N t).2.trace = s.trace ++ p.events := passage_trace hs.keys t
  -- the panics of the turn: first the one from the cell, then those raised in it
  have hsum : x :: raised i p.events = (p.resumed? i).toList ++ left'.toList := by
    have h' := hl'.sum
    have h := hl.sum
    rw [show (s.turn N t).2.world.client.trace = s.trace ++ p.events from htr, raised_append,
      resumed_append, passage_resumed hs.keys, show raised i s.trace = _ from h, ← hleft, hf,
      List.append_assoc, List.append_assoc] at h'
    exact List.append_cancel_left h'
  cases hr : p.resumed? i with
  | some y =>
    rw [hr] at hsum
    refine .inl ?_
    rw [List.head_eq_of_cons_eq hsum]
  | none =>
    rw [hr] at hsum
    have hleft' : left' = some x := by
      cases left' with
      | none => cases hsum
      | some y => rw [List.head_eq_of_cons_eq hsum]
    refine .inr ⟨rfl, ?_⟩
    cases hg : (s.turn N t).2.world.client.bridges.get? i with
    | some b' =>
      refine .inl ?_
      show ((s.turn N t).2.world.client.bridges.get? i).bind Bridge.failure = some x
      rw [hg, Option.bind_some, (hl'.cell b' hg).1, hleft']
    | none =>
      refine .inr ⟨hg, ?_⟩
      have h := hl'.gone hg
      rw [show (s.turn N t).2.world.client.trace = s.trace ++ p.events from htr, discarded_append,
        show discarded i s.trace = [] from hd, hleft'] at h
      exact h

end Session

/-- **The panics raised in calls back are the panics with which solves stop.** In the order in which
they are raised each goes on once, but for the last, which may still be in the cell, or was there
when the solver ended. All native calls return; a step that stops with a panic is a solve that takes
it from a cell, or has done nothing before; and a cell is emptied in no other way. -/
theorem panics_accounted (N : Native σ) (opening : Session.Opening) (native : σ)
    (turns : List (Turn σ)) (i : Nat) :
    let start := (Session.start opening native).2
    let course := start.course N turns
    let s := start.after N turns
    (∃ left : Option Payload,
      raised i s.trace = course.filterMap (·.resumed? i) ++ left.toList ∧
        (∀ b, s.world.client.bridges.get? i = some b → b.failure = left) ∧
        (s.world.client.bridges.get? i = none → discarded i s.trace = left.toList)) ∧
      callsMade s.trace = callsReturned s.trace ∧
      (∀ hook memory,
        (s.world.client.poll hook).2.trace.getLast? =
            some (.answered (s.world.client.poll hook).1) ∧
          (s.world.client.offer hook memory).trace.getLast? = some .offered) ∧
      ∀ p ∈ course,
        (∀ x, p.answer.panic? = some x → (∃ j, p.resumed? j = some x) ∨ p.events = []) ∧
          ∀ x, p.before.cell? i = some x →
            p.resumed? i = some x ∨
              p.resumed? i = none ∧
                (p.after.cell? i = some x ∨
                  p.after.world.client.bridges.get? i = none ∧ discarded i p.events = [x]) := by
  intro start course s
  have hsound : start.stage.Sound := Session.sound_start opening native
  obtain ⟨hl, hsilent, ho⟩ := Session.ledger_start (i := i) opening native
  refine ⟨?_, ?_, ?_, ?_⟩
  · obtain ⟨left, hleft⟩ := Session.ledger_after (N := N) hsound hl turns
    refine ⟨left, ?_, fun b hb => (hleft.cell b hb).1, hleft.gone⟩
    have h := hleft.sum
    rw [show resumed i (start.after N turns).world.client.trace = _ from
      Session.resumed_after hsound turns i, hsilent.resumed, List.nil_append] at h
    exact h
  · refine Session.calls_after hsound ?_ turns
    rw [callsMade_of_isNote fun e he => (ho e he).2, callsReturned_of_isNote fun e he => (ho e he).2]
  · intro hook memory
    exact ⟨Client.poll_answers hook _, Client.offer_ends hook memory _⟩
  · intro p hp
    obtain ⟨earlier, t, later, -, rfl⟩ := Session.mem_course hp
    obtain ⟨left, hleft⟩ := Session.ledger_after (N := N) hsound hl earlier
    exact ⟨fun x hx => Session.passage_panic t hx,
      fun x hx => Session.cell_of_turn (Session.sound_after hsound earlier) hleft t hx⟩

end SatClient
