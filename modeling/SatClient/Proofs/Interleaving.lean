import SatClient.Proofs.Abreast
import SatClient.Proofs.CallBack

/-!
# Solvers side by side

Steps with different solvers do not meet: whatever is done with other solvers in between, a solver
behaves as if it were alone.

* `Step.solver?`, `Step.names`: the solver of a step, and the kept options that it names
* `Holding`: what belongs to a solver in a session
* `Session.Near`, `Session.Abreast`: sessions that agree about a holding, and what becomes of them
* `Session.step_abreast`: a step does the same in sessions that agree
* `trail`: what is seen of steps one after the other
* **`trail_alone`**: what is seen of a solver is what would be seen of it alone
-/

namespace SatClient

variable {σ τ ω ρ α ι : Type} {N : Native σ} {A : N.Apart τ ω ρ}

/-! ## Steps with a solver -/

/-- The key of the solver with which something is done. -/
def Step.solver? : Step → Option Int
  | add key .. | assume key _ | solve key | val key _ | failed key _ | setTerminate key _
  | setExport key .. | clearTerminate key | clearExport key | getOptions key | getOption key ..
  | hasOption key _ | setOption key .. | setByName key .. | configure key _ | release key
  | drop key => some key
  | _ => none

/-- The names of the kept options that a step uses or gives. -/
def Step.names : Step → List String
  | getOption _ _ keep => keep.toList
  | setOption _ option .. => [option]
  | _ => []

/-- What belongs to a solver in a session: also its key, and the names of its kept options. -/
structure Holding extends Share where
  key : Int
  names : String → Prop

/-- Two solvers have nothing in common. -/
structure Holding.Apart (q q' : Holding) : Prop where
  key : q.key ≠ q'.key
  handle : q.handle ≠ q'.handle
  owns : ∀ j, q.owns j → ¬ q'.owns j
  names : ∀ name, q.names name → ¬ q'.names name

/-- A step with the solver of a holding. -/
structure Step.Of (q : Holding) (action : Step) : Prop where
  solver : action.solver? = some q.key
  names : ∀ name ∈ action.names, q.names name

/-! ## Worlds that agree -/

namespace World

variable {p p' : Share} {w w' v u u' : World σ}

theorem Near.symm (h : Near A p w w') : Near A p w' w where
  client := ⟨fun j hj => (h.client.bridges j hj).symm, h.client.keys', h.client.keys⟩
  valid := h.valid'
  valid' := h.valid
  part := h.part.symm
  held := h.part ▸ h.held

theorem Near.trans (h : Near A p w w') (h' : Near A p w' v) : Near A p w v where
  client := ⟨fun j hj => (h.client.bridges j hj).trans (h'.client.bridges j hj), h.client.keys,
    h'.client.keys'⟩
  valid := h.valid
  valid' := h'.valid'
  part := h.part.trans h'.part
  held := h.held

/-- What is done for another share makes no difference. -/
theorem Near.frame (h : Near A p w w') (hh : p.handle ≠ p'.handle) (ho : ∀ j, p.owns j → ¬ p'.owns j)
    (hv : Abreast A p' w u v u') : Near A p v w' where
  client := ⟨fun j hj => (hv.client.rest j (ho j hj)).trans (h.client.bridges j hj),
    hv.near.client.keys, h.client.keys'⟩
  valid := hv.near.valid
  valid' := h.valid'
  part := (hv.parts _ hh).trans h.part
  held := by
    rw [hv.parts _ hh]
    exact h.held

end World

/-! ## Sessions that agree -/

namespace Session

variable {q q' : Holding} {s s' t t' u u' : Session σ}

/-- Two sessions agree about a holding. -/
structure Near (A : N.Apart τ ω ρ) (q : Holding) (s s' : Session σ) : Prop where
  world : World.Near A q.toShare s.world s'.world
  solver : s.solvers.get? q.key = s'.solvers.get? q.key
  same : ∀ x, s.solvers.get? q.key = some x → x.identity = q.identity ∧ x.handle = q.handle
  options : ∀ name, q.names name → s.option? name = s'.option? name
  keys : s.solvers.keys.Nodup
  keys' : s'.solvers.keys.Nodup

/-- Two sessions `s` and `s'` that agree about a holding have become `t` and `t'` in the same way, and
nothing else has changed. -/
structure Abreast (A : N.Apart τ ω ρ) (q : Holding) (s s' t t' : Session σ) : Prop where
  near : Near A q t t'
  world : World.Abreast A q.toShare s.world s'.world t.world t'.world
  solvers : ∀ k, k ≠ q.key → t.solvers.get? k = s.solvers.get? k
  solvers' : ∀ k, k ≠ q.key → t'.solvers.get? k = s'.solvers.get? k
  options : ∀ name, ¬ q.names name → t.option? name = s.option? name
  options' : ∀ name, ¬ q.names name → t'.option? name = s'.option? name

namespace Near

theorem symm (h : Near A q s s') : Near A q s' s where
  world := h.world.symm
  solver := h.solver.symm
  same := h.solver ▸ h.same
  options name hn := (h.options name hn).symm
  keys := h.keys'
  keys' := h.keys

theorem trans (h : Near A q s s') (h' : Near A q s' t) : Near A q s t where
  world := h.world.trans h'.world
  solver := h.solver.trans h'.solver
  same := h.same
  options name hn := (h.options name hn).trans (h'.options name hn)
  keys := h.keys
  keys' := h'.keys'

theorem left (h : Near A q s s') : Near A q s s := h.trans h.symm

/-- What is done with another solver makes no difference. -/
theorem frame (h : Near A q s s') (hq : q.Apart q') (ht : Abreast A q' s u t u') : Near A q t s' where
  world := h.world.frame hq.handle hq.owns ht.world
  solver := (ht.solvers _ hq.key).trans h.solver
  same x hx := h.same x ((ht.solvers _ hq.key).symm.trans hx)
  options name hn := (ht.options name (hq.names name hn)).trans (h.options name hn)
  keys := ht.near.keys
  keys' := h.keys'

/-- What is done with another solver makes no difference to what is kept. -/
theorem frame_self (h : Near A q s s) (hq : q.Apart q') (ht : Abreast A q' s u t u') : Near A q t t :=
  (h.frame hq ht).left

end Near

namespace Abreast

theorem refl (h : Near A q s s') : Abreast A q s s' s s' :=
  ⟨h, .refl h.world, fun _ _ => rfl, fun _ _ => rfl, fun _ _ => rfl, fun _ _ => rfl⟩

theorem trans (h : Abreast A q s s' t t') (h' : Abreast A q t t' u u') : Abreast A q s s' u u' :=
  ⟨h'.near, h.world.trans h'.world, fun k hk => (h'.solvers k hk).trans (h.solvers k hk),
    fun k hk => (h'.solvers' k hk).trans (h.solvers' k hk),
    fun n hn => (h'.options n hn).trans (h.options n hn),
    fun n hn => (h'.options' n hn).trans (h.options' n hn)⟩

end Abreast

/-! ## Steps abreast -/

/-- A step answers in the same way in sessions that agree, and they stay in agreement. -/
def Steady (A : N.Apart τ ω ρ) (q : Holding) (f : Session σ → Answer × Session σ) : Prop :=
  ∀ s s', Near A q s s' → (f s).1 = (f s').1 ∧ Abreast A q s s' (f s).2 (f s').2

/-- The solver in the worlds of two sessions that agree. -/
theorem Near.focus (h : Near A q s s') {x : Solver} (hx : s.solvers.get? q.key = some x) :
    Focus.Near A q.toShare ⟨x, s.world⟩ ⟨x, s'.world⟩ :=
  ⟨rfl, (h.same x hx).1, (h.same x hx).2, h.world⟩

theorem steady_runOn {op : Act (Focus σ) α} (hop : Solver.Steady A q.toShare op)
    (answer : Except Stop α → Answer) : Steady A q (runOn q.key op answer) := by
  intro s s' h
  unfold runOn onSolver
  rw [← h.solver]
  cases hx : s.solvers.get? q.key with
  | none => exact ⟨rfl, .refl h⟩
  | some x =>
    obtain ⟨hr, hf⟩ := hop _ _ (h.focus hx)
    refine ⟨congrArg answer hr.eq, ⟨hf.world.near, ?_, fun y hy => ?_, h.options,
      Keyed.nodup_keys_set h.keys _ _, Keyed.nodup_keys_set h.keys' _ _⟩, hf.world,
      fun k hk => Keyed.get?_set_of_ne _ _ hk.symm, fun k hk => Keyed.get?_set_of_ne _ _ hk.symm,
      fun _ _ => rfl, fun _ _ => rfl⟩
    · simp only [Keyed.get?_set_self, hf.near.solver]
    · simp only [Keyed.get?_set_self, Option.some.injEq] at hy
      subst hy
      exact ⟨hf.near.identity, hf.near.handle⟩

theorem lookup_keep (keep : Option String) (o : SolverOption) (options : List (String × SolverOption))
    {name : String} (h : ∀ n ∈ keep.toList, n ≠ name) :
    (keep.toList.map (·, o) ++ options).lookup name = options.lookup name := by
  cases keep with
  | none => rfl
  | some n =>
    have hne : (name == n) = false := beq_false_of_ne fun he => h n (by simp) he.symm
    simp [List.lookup_cons, hne]

theorem steady_getOption (name : String) (keep : Option String)
    (hkeep : ∀ n ∈ keep.toList, q.names n) : Steady A q (getOption N q.key name keep) := by
  intro s s' h
  obtain ⟨ha, hs⟩ := steady_runOn (Solver.steady_getOption (N := N) name) (.ofResult .option) s s' h
  unfold getOption
  rcases hr : s.runOn q.key (Solver.getOption N name) (.ofResult .option) with ⟨a, t⟩
  rcases hr' : s'.runOn q.key (Solver.getOption N name) (.ofResult .option) with ⟨a', t'⟩
  rw [hr, hr'] at ha hs
  cases ha
  have hkept (o : SolverOption) : Abreast A q s s'
      { t with options := keep.toList.map (·, o) ++ t.options }
      { t' with options := keep.toList.map (·, o) ++ t'.options } := by
    have hout (n : String) (hn : ¬ q.names n) : ∀ m ∈ keep.toList, m ≠ n :=
      fun m hm he => hn (he ▸ hkeep m hm)
    refine ⟨⟨hs.near.world, hs.near.solver, hs.near.same, fun n hn => ?_, hs.near.keys, hs.near.keys'⟩,
      hs.world, hs.solvers, hs.solvers', fun n hn => ?_, fun n hn => ?_⟩
    · have ho : t.options.lookup n = t'.options.lookup n := hs.near.options n hn
      cases keep with
      | none => exact ho
      | some m =>
        show List.lookup n ((m, o) :: t.options) = List.lookup n ((m, o) :: t'.options)
        rw [List.lookup_cons, List.lookup_cons, ho]
    · exact (lookup_keep keep o t.options (hout n hn)).trans (hs.options n hn)
    · exact (lookup_keep keep o t'.options (hout n hn)).trans (hs.options' n hn)
  cases a with
  | done v =>
    cases v with
    | option o => exact ⟨rfl, hkept o⟩
    | _ => exact ⟨rfl, hs⟩
  | _ => exact ⟨rfl, hs⟩

theorem steady_setOption {option : String} (ho : q.names option) (value index : Int64) :
    Steady A q (setOption N q.key option value index) := by
  intro s s' h
  have hset := fun o => steady_runOn (Solver.steady_setOption (N := N) o value index) .ofUnit s s' h
  unfold setOption onSolver
  rw [← h.solver, ← h.options option ho]
  cases s.solvers.get? q.key with
  | none => exact ⟨rfl, .refl h⟩
  | some x =>
    cases s.option? option with
    | none => exact ⟨rfl, .refl h⟩
    | some o => exact hset o

theorem steady_configure (texts : List String) : Steady A q (configure N q.key texts) := by
  intro s s' h
  have hrun := fun settings => steady_runOn (Solver.steady_configure (N := N) settings)
    (.configured settings) s s' h
  unfold configure onSolver
  rw [← h.solver]
  cases s.solvers.get? q.key with
  | none => exact ⟨rfl, .refl h⟩
  | some x =>
    cases texts.mapM Setting.read with
    | error m => exact ⟨rfl, .refl h⟩
    | ok settings => exact hrun settings

/-! ## The end of a solver -/

/-- To leave the library changes nothing of a solver; what is noted is not seen. -/
theorem leave_eq (s : Session σ) :
    ∃ events library, s.leave = { s with world := s.world.note events, library } ∧
      (events = [] ∨ events = [.unloaded]) := by
  unfold leave
  cases s.library with
  | none => exact ⟨[], s.library, by simp [World.note, Client.note], .inl rfl⟩
  | some l =>
    dsimp only
    split_ifs
    · exact ⟨[], l.leave, by simp [World.note, Client.note], .inl rfl⟩
    · exact ⟨[.unloaded], l.leave, rfl, .inr rfl⟩

theorem abreast_leave (h : Near A q s s') : Abreast A q s s' s.leave s'.leave := by
  obtain ⟨es, l, hs, he⟩ := s.leave_eq
  obtain ⟨es', l', hs', he'⟩ := s'.leave_eq
  have hunseen {events : List Event} (he : events = [] ∨ events = [.unloaded]) :
      seen events = [] ∧ ∀ e ∈ events, e.Of q.toShare := by
    rcases he with rfl | rfl
    · exact ⟨rfl, by simp⟩
    · refine ⟨rfl, fun e he => ?_⟩
      rw [List.mem_singleton.mp he]
      exact .owned q.self (.inl rfl) rfl
  have hw : World.Abreast A q.toShare s.world s'.world (s.world.note es) (s'.world.note es') :=
    .of_client h.world (Client.abreast_note h.world.client
      ((hunseen he).1.trans (hunseen he').1.symm) (hunseen he).2 (hunseen he').2)
  rw [hs, hs']
  exact ⟨⟨hw.near, h.solver, h.same, h.options, h.keys, h.keys'⟩, hw, fun _ _ => rfl, fun _ _ => rfl,
    fun _ _ => rfl, fun _ _ => rfl⟩

theorem abreast_afterEnd (h : Near A q s s') {v v' : World σ}
    (hw : World.Abreast A q.toShare s.world s'.world v v') :
    Abreast A q s s' (s.afterEnd q.key v) (s'.afterEnd q.key v') := by
  have herase : Abreast A q s s' { s with world := v, solvers := s.solvers.erase q.key }
      { s' with world := v', solvers := s'.solvers.erase q.key } := by
    refine ⟨⟨hw.near, ?_, fun x hx => ?_, h.options, Keyed.nodup_keys_erase h.keys _,
      Keyed.nodup_keys_erase h.keys' _⟩, hw, fun k hk => Keyed.get?_erase_of_ne _ hk.symm,
      fun k hk => Keyed.get?_erase_of_ne _ hk.symm, fun _ _ => rfl, fun _ _ => rfl⟩
    · simp only [Keyed.get?_erase h.keys, Keyed.get?_erase h.keys', if_pos]
    · simp [Keyed.get?_erase h.keys] at hx
  exact herase.trans (abreast_leave herase.near)

theorem steady_release : Steady A q (releaseSolver N q.key) := by
  intro s s' h
  unfold releaseSolver onSolver
  rw [← h.solver]
  cases hx : s.solvers.get? q.key with
  | none => exact ⟨rfl, .refl h⟩
  | some x =>
    obtain ⟨hr, hw⟩ := Solver.release_abreast (h.focus hx)
    exact ⟨congrArg Answer.ofUnit hr, abreast_afterEnd h hw⟩

theorem steady_drop :
    Steady A q fun s => s.onSolver q.key fun _ => (.done .nothing, s.dropSolver N q.key) := by
  intro s s' h
  dsimp only
  unfold onSolver dropSolver
  rw [← h.solver]
  cases hx : s.solvers.get? q.key with
  | none => exact ⟨rfl, .refl h⟩
  | some x => exact ⟨rfl, abreast_afterEnd h (Solver.drop_abreast (h.focus hx))⟩

/-- **A step with a solver does the same in sessions that agree about what belongs to it.** -/
theorem step_abreast {action : Step} (ha : action.Of q) : Steady A q (step N action) := by
  obtain ⟨hsolver, hnames⟩ := ha
  cases action with
  | create key => cases hsolver
  | signature => cases hsolver
  | origin => cases hsolver
  | cloneInterface => cases hsolver
  | dropInterface => cases hsolver
  | countKeepers => cases hsolver
  | optionsEqual a b => cases hsolver
  | add key lits redundancy => cases hsolver; exact steady_runOn (Solver.steady_addLits lits redundancy) _
  | assume key lits => cases hsolver; exact steady_runOn (Solver.steady_solveLits lits) _
  | solve key => cases hsolver; exact steady_runOn Solver.steady_solve _
  | val key lit => cases hsolver; exact steady_runOn (Solver.steady_valueOfLit lit) _
  | failed key lit => cases hsolver; exact steady_runOn (Solver.steady_litFailed lit) _
  | setTerminate key closure => cases hsolver; exact steady_runOn (Solver.steady_setTerminate closure) _
  | setExport key listener maxLength =>
    cases hsolver; exact steady_runOn (Solver.steady_setExport listener maxLength) _
  | clearTerminate key => cases hsolver; exact steady_runOn Solver.steady_clearTerminate _
  | clearExport key => cases hsolver; exact steady_runOn Solver.steady_clearExport _
  | getOptions key => cases hsolver; exact steady_runOn Solver.steady_getOptions _
  | getOption key name keep => cases hsolver; exact steady_getOption name keep hnames
  | hasOption key name => cases hsolver; exact steady_runOn (Solver.steady_hasOption name) _
  | setOption key option value index =>
    cases hsolver; exact steady_setOption (hnames option (List.mem_singleton_self _)) value index
  | setByName key name value index =>
    cases hsolver; exact steady_runOn (Solver.steady_setByName name value index) _
  | configure key texts => cases hsolver; exact steady_configure texts
  | release key => cases hsolver; exact steady_release
  | drop key => cases hsolver; exact steady_drop

end Session

/-! ## Steps one after the other -/

/-- What is seen of a step: the answer, what happened, and what was added to the log. -/
abbrev Glimpse (ω : Type) := Answer × List Event × List ω

/-- What is seen of a step that is taken from a session. -/
def Session.glimpse (A : N.Apart τ ω ρ) (f : Session σ → Answer × Session σ) (s : Session σ) : Glimpse ω :=
  let (r, t) := Session.report f s
  (r.answer, seen r.trace, (A.log t.world.native).drop (A.log s.world.native).length)

/-- The session after steps one after the other. -/
def Session.played (f : ι → Session σ → Answer × Session σ) (is : List ι) (s : Session σ) : Session σ :=
  (runAll (fun i => Session.report (f i)) is s).2

/-- What is seen of steps one after the other, each with its step. -/
def trail (A : N.Apart τ ω ρ) (f : ι → Session σ → Answer × Session σ) :
    List ι → Session σ → List (ι × Glimpse ω)
  | [], _ => []
  | i :: is, s => (i, s.glimpse A (f i)) :: trail A f is (Session.report (f i) s).2

section Trail

variable {f : ι → Session σ → Answer × Session σ} {key : ι → Option Int} {q : Int → Holding}
  {ks : List Int} {s s' : Session σ} {is js : List ι} {k : Int}

theorem Session.Near.forget {q : Holding} (h : Session.Near A q s s') : Session.Near A q s.forget s' :=
  ⟨⟨⟨h.world.client.bridges, h.world.client.keys, h.world.client.keys'⟩, h.world.valid, h.world.valid',
    h.world.part, h.world.held⟩, h.solver, h.same, h.options, h.keys, h.keys'⟩

/-- A step is seen in the same way from sessions that agree. -/
theorem report_abreast {q : Holding} {f : Session σ → Answer × Session σ} (hf : Session.Steady A q f)
    (h : Session.Near A q s s') : s.glimpse A f = s'.glimpse A f ∧
      Session.Abreast A q s.forget s'.forget (Session.report f s).2 (Session.report f s').2 := by
  obtain ⟨ha, ht⟩ := hf _ _ h.forget.symm.forget.symm
  refine ⟨?_, ht⟩
  obtain ⟨es, es', he, he', hs, -, -⟩ := ht.world.client.events
  obtain ⟨l, hl, hl'⟩ := ht.world.log
  have hseen : seen (f s.forget).2.trace = seen (f s'.forget).2.trace := by
    have he : (f s.forget).2.trace = es := he
    have he' : (f s'.forget).2.trace = es' := he'
    rw [he, he', hs]
  have hlog : A.log (f s.forget).2.world.native = A.log s.world.native ++ l := hl
  have hlog' : A.log (f s'.forget).2.world.native = A.log s'.world.native ++ l := hl'
  refine Prod.ext ha (Prod.ext hseen ?_)
  show (A.log (f s.forget).2.world.native).drop _ = (A.log (f s'.forget).2.world.native).drop _
  rw [hlog, hlog', List.drop_left, List.drop_left]

/-- Solvers with nothing in common, in a session and in steps with them. -/
structure Holdings (A : N.Apart τ ω ρ) (f : ι → Session σ → Answer × Session σ)
    (key : ι → Option Int) (q : Int → Holding) (ks : List Int) (is : List ι) (s : Session σ) : Prop where
  apart : ∀ k ∈ ks, ∀ k' ∈ ks, k ≠ k' → (q k).Apart (q k')
  steps : ∀ i ∈ is, ∃ k ∈ ks, key i = some k ∧ Session.Steady A (q k) (f i)
  near : ∀ k ∈ ks, Session.Near A (q k) s s

/-- After a step with one solver all have nothing in common still. -/
theorem Holdings.tail {i : ι} (h : Holdings A f key q ks (i :: is) s) :
    Holdings A f key q ks is (Session.report (f i) s).2 := by
  obtain ⟨k, hk, -, hf⟩ := h.steps i List.mem_cons_self
  have ht := (report_abreast hf (h.near k hk)).2
  refine ⟨h.apart, fun j hj => h.steps j (List.mem_cons_of_mem i hj), fun k' hk' => ?_⟩
  by_cases he : k' = k
  · subst he
    exact ht.near
  · exact (h.near k' hk').forget.left.frame_self (h.apart k' hk' k hk he) ht

/-- **What is seen of a solver is what would be seen of it alone.** By induction on the steps: those
with the solver are taken in both sessions, the others make no difference. -/
theorem trail_alone (h : Holdings A f key q ks is s) (hk : k ∈ ks) (hs : Session.Near A (q k) s s') :
    (trail A f is s).filter (fun r => key r.1 = some k) =
        trail A f (is.filter fun i => key i = some k) s' ∧
      Session.Near A (q k) (s.played f is) (s'.played f (is.filter fun i => key i = some k)) := by
  induction is generalizing s s' with
  | nil => exact ⟨rfl, hs⟩
  | cons i is ih =>
    obtain ⟨k', hk', hi, hf⟩ := h.steps i List.mem_cons_self
    by_cases he : k' = k
    · subst he
      obtain ⟨hg, ht⟩ := report_abreast hf hs
      obtain ⟨htrail, hran⟩ := ih h.tail ht.near
      rw [List.filter_cons_of_pos (by simpa using hi), trail, trail, List.filter_cons_of_pos (by simpa using hi),
        htrail, hg]
      exact ⟨rfl, hran⟩
    · have hne : ¬ key i = some k := fun hik => he (Option.some.inj (hi.symm.trans hik))
      have ht := (report_abreast hf (h.near k' hk')).2
      rw [List.filter_cons_of_neg (by simpa using hne), trail, List.filter_cons_of_neg (by simpa using hne)]
      exact ih h.tail (hs.forget.frame (h.apart k hk k' hk' (Ne.symm he)) ht)

/-- What is added to the log is what is seen to be added. -/
theorem log_ran (h : Holdings A f key q ks is s) :
    A.log (s.played f is).world.native =
      A.log s.world.native ++ ((trail A f is s).map fun r => r.2.2.2).flatten := by
  induction is generalizing s with
  | nil => exact (List.append_nil _).symm
  | cons i is ih =>
    obtain ⟨k, hk, -, hf⟩ := h.steps i List.mem_cons_self
    obtain ⟨l, hl, -⟩ := (report_abreast hf (h.near k hk)).2.world.log
    have hl : A.log (Session.report (f i) s).2.world.native = A.log s.world.native ++ l := hl
    have hglimpse : (s.glimpse A (f i)).2.2 = l := by
      show (A.log (Session.report (f i) s).2.world.native).drop _ = l
      rw [hl, List.drop_left]
    rw [trail, List.map_cons, List.flatten_cons, hglimpse, ← List.append_assoc, ← hl]
    exact ih h.tail

/-- What a native solver knows of other handles, and of none, stays. -/
theorem rest_ran (h : Holdings A f key q ks is s) :
    A.rest (s.played f is).world.native = A.rest s.world.native ∧
      ∀ handle, (∀ k ∈ ks, handle ≠ (q k).handle) →
        A.part handle (s.played f is).world.native = A.part handle s.world.native := by
  induction is generalizing s with
  | nil => exact ⟨rfl, fun _ _ => rfl⟩
  | cons i is ih =>
    obtain ⟨k, hk, -, hf⟩ := h.steps i List.mem_cons_self
    have ht := (report_abreast hf (h.near k hk)).2.world
    obtain ⟨hr, hp⟩ := ih h.tail
    exact ⟨hr.trans ht.rest, fun handle hh => (hp handle hh).trans (ht.parts handle (hh k hk))⟩

/-- What is seen of a step belongs to the solver of the step. -/
theorem trail_of (h : Holdings A f key q ks is s) :
    ∀ r ∈ trail A f is s, ∃ k ∈ ks, key r.1 = some k ∧ ∀ e ∈ r.2.2.1, e.Of (q k).toShare := by
  induction is generalizing s with
  | nil => exact fun r hr => absurd hr List.not_mem_nil
  | cons i is ih =>
    intro r hr
    rcases List.mem_cons.mp hr with rfl | hr
    · obtain ⟨k, hk, hi, hf⟩ := h.steps i List.mem_cons_self
      refine ⟨k, hk, hi, fun e he => ?_⟩
      obtain ⟨es, -, he', -, -, ho, -⟩ := (report_abreast hf (h.near k hk)).2.world.client.events
      have he' : (Session.report (f i) s).2.trace = es := he'
      obtain ⟨e', hmem, rfl⟩ := List.mem_map.mp he
      have hof := ho e' (he' ▸ (List.mem_filter.mp hmem).1)
      cases e' <;> exact hof
    · exact ih h.tail r hr

/-- Lists with the same entries of each solver are the same in another order. -/
theorem perm_of_filter {β : Type} {l l' : List (ι × β)}
    (hl : ∀ r ∈ l, ∃ k ∈ ks, key r.1 = some k) (hl' : ∀ r ∈ l', ∃ k ∈ ks, key r.1 = some k)
    (h : ∀ k ∈ ks, l.filter (fun r => key r.1 = some k) = l'.filter fun r => key r.1 = some k) :
    l.Perm l' := by
  classical
  refine List.perm_iff_count.mpr fun r => ?_
  by_cases hr : ∃ k ∈ ks, key r.1 = some k
  · obtain ⟨k, hk, hrk⟩ := hr
    let p (r : ι × β) : Bool := key r.1 = some k
    have hp : p r = true := decide_eq_true hrk
    calc l.count r = (l.filter p).count r := (List.count_filter hp).symm
      _ = (l'.filter p).count r := congrArg (List.count r) (h k hk)
      _ = l'.count r := List.count_filter hp
  · rw [List.count_eq_zero.mpr fun hm => hr (hl r hm),
      List.count_eq_zero.mpr fun hm => hr (hl' r hm)]

end Trail
end SatClient
