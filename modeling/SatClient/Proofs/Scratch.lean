import SatClient.Proofs.Stage

/-!
# The scratch buffer

What an operation finds in the scratch buffer of its solver makes no difference: it calls the native
solver and answers as it would with an empty buffer, then and ever after.

* `Focus.bare`, `Session.bare`: a state with empty buffers
* `Given.view_scratch`: what a native solver is given does not depend on the buffer
* `Solver.Blind`: an operation to which the buffer makes no difference
* **`Session.turn_bare`**: the buffers make no difference to a turn
* **`Session.course_reports`**: nor to the answers and the events of any course
-/

namespace SatClient

variable {σ α β : Type} {N : Native σ}

/-! ## States with empty buffers -/

def Solver.bare (x : Solver) : Solver := { x with buffer := [] }

def Focus.bare (f : Focus σ) : Focus σ := f.withBuffer []

/-! ## Views -/

/-- The memory to which a view points does not depend on what was in the buffer. -/
theorem Given.view_scratch {L : Type} [Literal L] (given : Given L) (b b' : List Int32) :
    (given.view b).1 = (given.view b').1 ∧
      ∀ v, (given.view b).1 = .ok v →
        Buffer.ofView v (given.view b).2 = Buffer.ofView v (given.view b').2 := by
  cases given with
  | stream xs => exact ⟨rfl, fun _ _ => rfl⟩
  | sequence s =>
    simp only [Given.view, Sequence.view]
    cases s.contiguity with
    | copied => exact ⟨rfl, fun _ _ => rfl⟩
    | converted => exact ⟨rfl, fun _ _ => rfl⟩
    | direct natives =>
      dsimp only
      split_ifs
      · exact ⟨rfl, fun _ _ => rfl⟩
      · refine ⟨rfl, fun v hv => ?_⟩
        cases hv
        rfl

namespace Solver

/-! ## Operations -/

/-- An operation to which the buffer makes no difference. -/
def Blind (x : Act (Focus σ) α) : Prop :=
  ∀ f, (x f.bare).1 = (x f).1 ∧ (x f.bare).2.bare = (x f).2.bare

/-- An operation that does nothing to the buffer. -/
def Ignores (x : Act (Focus σ) α) : Prop := ∀ f, x f.bare = ((x f).1, (x f).2.bare)

theorem Ignores.blind {x : Act (Focus σ) α} (h : Ignores x) : Blind x := by
  intro f
  rw [h f]
  exact ⟨rfl, rfl⟩

theorem Ignores.bind {x : Act (Focus σ) α} {g : α → Act (Focus σ) β} (hx : Ignores x)
    (hg : ∀ a, Ignores (g a)) : Ignores (x >>= g) := by
  intro f
  rw [Act.bind_apply, Act.bind_apply, hx f]
  rcases x f with ⟨e | a, f'⟩
  · rfl
  · exact hg a f'

theorem ignores_check (e : EntryPoint) (code : Code) : Ignores (σ := σ) (check e code) := by
  intro f
  rw [check_apply, check_apply]
  split_ifs <;> rfl

theorem ignores_conclude (reply : Reply) : Ignores (σ := σ) (conclude reply) := by
  intro f
  have hb : f.bare.bridge = f.bridge := rfl
  rw [conclude_apply, conclude_apply, hb]
  cases f.bridge.failure with
  | some p => rfl
  | none =>
    dsimp only
    split_ifs <;> rfl

theorem Ignores.agree {x : Act (Focus σ) α} (h : Ignores x) {f f' : Focus σ} (hf : f.bare = f'.bare) :
    (x f).1 = (x f').1 ∧ (x f).2.bare = (x f').2.bare := by
  have he : ((x f).1, (x f).2.bare) = ((x f').1, (x f').2.bare) := by rw [← h f, ← h f', hf]
  exact Prod.mk.inj he

/-! ## Literals on their way to the native solver -/

section Literals

variable {L : Type} [Literal L]

/-- What is done with a view and the memory it points to makes no difference, if it does nothing to the
buffer. -/
theorem blind_of_view {x : Act (Focus σ) α} (given : Given L) (k : View → Buffer → Act (Focus σ) α)
    (hk : ∀ v b, Ignores (k v b))
    (hx : ∀ f, x f = match given.view f.solver.buffer with
      | (.error o, buffer) => (.error (.panic o.payload), f.withBuffer buffer)
      | (.ok v, buffer) => k v (Buffer.ofView v buffer) (f.withBuffer buffer)) : Blind x := by
  intro f
  obtain ⟨hv, hb⟩ := given.view_scratch f.bare.solver.buffer f.solver.buffer
  rw [hx f, hx f.bare]
  rcases h : given.view f.solver.buffer with ⟨o | v, buffer⟩ <;>
    rcases h' : given.view f.bare.solver.buffer with ⟨o' | v', buffer'⟩ <;>
    rw [h, h'] at hv hb <;> cases hv
  · exact ⟨rfl, rfl⟩
  · have he : Buffer.ofView v buffer' = Buffer.ofView v buffer := hb v rfl
    dsimp only
    rw [he]
    exact (hk v _).agree rfl

theorem blind_addClause (given : Given L) (redundancy : Redundancy) :
    Blind (addClause N given redundancy) := by
  refine blind_of_view given (fun v b f =>
    if v.natives.length ≤ maxLength then
      let called := (f.note [.notice (.adding v.natives.toList redundancy)]).call N
        (.add f.solver.handle (some b) (Int32.ofNat v.natives.length) redundancy.native)
      check .add called.1.code called.2
    else (.error (.failure (.tooLong v.natives.length)), f)) ?_ (addClause_apply N given redundancy)
  intro v b f
  dsimp only
  split_ifs
  · let called := (f.note [.notice (.adding v.natives.toList redundancy)]).call N
      (.add f.solver.handle (some b) (Int32.ofNat v.natives.length) redundancy.native)
    exact ignores_check .add called.1.code called.2
  · rfl

theorem blind_solveUnder (given : Given L) : Blind (solveUnder N given) := by
  refine blind_of_view given (fun v b f =>
    if v.natives.length ≤ maxLength then
      let called := (f.note [.notice (.solving v.natives.toList)]).call N
        (.solve f.solver.handle (some b) (Int32.ofNat v.natives.length))
      conclude called.1 called.2
    else (.error (.failure (.tooLong v.natives.length)), f)) ?_ (solveUnder_apply N given)
  intro v b f
  dsimp only
  split_ifs
  · let called := (f.note [.notice (.solving v.natives.toList)]).call N
      (.solve f.solver.handle (some b) (Int32.ofNat v.natives.length))
    exact ignores_conclude called.1 called.2
  · rfl

theorem ignores_litValue (l : L) : Ignores (litValue N l) := by
  intro f
  rw [litValue_apply, litValue_apply]
  cases Literal.toNative l with
  | error o => rfl
  | ok asked =>
    dsimp only
    show (if (f.call N (.val f.solver.handle asked)).1.code.isOk then _ else _) = _
    split_ifs <;> rfl

theorem ignores_assumptionFailed (l : L) : Ignores (assumptionFailed N l) := by
  intro f
  rw [assumptionFailed_apply, assumptionFailed_apply]
  cases Literal.toNative l with
  | error o => rfl
  | ok asked =>
    dsimp only
    show (if (f.call N (.failed f.solver.handle asked)).1.code.isOk then _ else _) = _
    split_ifs <;> rfl

end Literals

/-! ## Registration of closures -/

theorem ignores_setTerminate (closure : Closure) : Ignores (setTerminate N closure) := by
  intro f
  let c : Call := .setTerminate f.solver.handle (some f.solver.identity) (some .trampoline)
  let called := (f.note [.taken f.solver.identity .terminate closure.tag]).call N c
  let told := called.2.note [.notice (.setTerminate called.1.code)]
  have hb : f.bare.bridge = f.bridge := rfl
  have hc : ((f.bare.note [.taken f.bare.solver.identity .terminate closure.tag]).call N
      (.setTerminate f.bare.solver.handle (some f.bare.solver.identity) (some .trampoline))).1 =
        called.1 := rfl
  rw [setTerminate_apply, setTerminate_apply, hb]
  dsimp only
  rw [hc]
  split_ifs
  · rfl
  · rfl
  · exact ignores_check .setTerminate called.1.code
      ((settledTerminate none told).note [.dropped f.solver.identity .terminate closure.tag])

theorem ignores_clearTerminate : Ignores (clearTerminate N) := by
  intro f
  let called := f.call N (.setTerminate f.solver.handle none none)
  rw [clearTerminate_apply, clearTerminate_apply]
  exact ignores_check .setTerminate called.1.code
    (settledTerminate none (called.2.note [.notice (.clearedTerminate called.1.code)]))

theorem ignores_setExport (listener : Listener) (maxLength : Int32) :
    Ignores (setExport N listener maxLength) := by
  intro f
  let c : Call :=
    .setExport f.solver.handle (some f.solver.identity) maxLength (some .trampoline)
  let called := (f.note [.taken f.solver.identity .exporter listener.closure.tag]).call N c
  let told := called.2.note [.notice (.setExport maxLength called.1.code)]
  have hc : ((f.bare.note [.taken f.bare.solver.identity .exporter listener.closure.tag]).call N
      (.setExport f.bare.solver.handle (some f.bare.solver.identity) maxLength
        (some .trampoline))).1 = called.1 := rfl
  rw [setExport_apply, setExport_apply]
  dsimp only
  rw [hc]
  split_ifs
  · rfl
  · exact ignores_check .setExport called.1.code
      ((settledExporter none told).note [.dropped f.solver.identity .exporter listener.closure.tag])

theorem ignores_clearExport : Ignores (clearExport N) := by
  intro f
  let called := f.call N (.setExport f.solver.handle none 0 none)
  rw [clearExport_apply, clearExport_apply]
  exact ignores_check .setExport called.1.code
    (settledExporter none (called.2.note [.notice (.clearedExport called.1.code)]))

/-! ## Options -/

theorem ignores_discover : Ignores (discover N) := by
  intro f
  have ho : f.bare.solver.options = f.solver.options := rfl
  rw [discover_apply, discover_apply, ho]
  cases f.solver.options with
  | some found => rfl
  | none =>
    simp only [lookForOptions_apply]
    show (if (f.call N (.options f.solver.handle)).1.code.isOk then _ else _) = _
    split_ifs <;> rfl

theorem ignores_pure (a : α) : Ignores (σ := σ) (pure a) := fun _ => rfl

theorem ignores_fail (e : Failure) : Ignores (σ := σ) (.fail e : Act (Focus σ) α) := fun _ => rfl

theorem ignores_getOptions : Ignores (getOptions N) :=
  ignores_discover.bind fun d => ignores_pure d.options

theorem ignores_getOption (name : String) : Ignores (getOption N name) := by
  refine ignores_discover.bind fun d => ?_
  cases d.find? name with
  | some o => exact ignores_pure o
  | none => exact ignores_fail _

theorem ignores_hasOption (name : String) : Ignores (hasOption N name) :=
  ignores_discover.bind fun d => ignores_pure (d.position? name).isSome

theorem ignores_setDescribed (descriptor : Descriptor) (name : String) (value index : Int64) :
    Ignores (setDescribed N descriptor name value index) := by
  intro f
  let called := (f.note [.notice (.assigning name value index)]).call N
    (.setOption f.solver.handle (some descriptor) value index)
  rw [setDescribed_apply, setDescribed_apply]
  exact ignores_check .setOption called.1.code called.2

theorem ignores_setFound (found : Option Descriptor) (name : String) (value index : Int64) :
    Ignores (match found with
      | some descriptor => setDescribed N descriptor name value index
      | none => .fail (.unknownOption name)) := by
  cases found with
  | none => exact ignores_fail _
  | some descriptor => exact ignores_setDescribed descriptor name value index

theorem ignores_setOption (option : SolverOption) (value index : Int64) :
    Ignores (setOption N option value index) := by
  intro f
  rw [setOption_apply, setOption_apply]
  exact (ignores_discover.bind fun d => ignores_setFound _ option.name value index) f

theorem ignores_setByName (name : String) (value index : Int64) :
    Ignores (setByName N name value index) :=
  ignores_discover.bind fun _ => ignores_setFound _ name value index

/-- By induction on the settings. -/
theorem ignores_configure (settings : List Setting) : Ignores (configure N settings) := by
  induction settings with
  | nil => exact ignores_pure ()
  | cons s rest ih =>
    have ht : Ignores (σ := σ) (tell (.applying s)) := fun _ => rfl
    exact ht.bind fun _ => (ignores_setByName s.name s.value s.index).bind fun _ => ih

end Solver

/-! ## Sessions -/

namespace Session

variable {s : Session σ}

def bare (s : Session σ) : Session σ := { s with solvers := s.solvers.mapValues Solver.bare }

theorem get?_bare (key : Int) : s.bare.solvers.get? key = (s.solvers.get? key).map Solver.bare :=
  Keyed.get?_mapValues _ _ _

/-- Answers with sessions that differ in buffers alone. -/
def Agree (r r' : Answer × Session σ) : Prop := r.1 = r'.1 ∧ r.2.bare = r'.2.bare

@[simp] theorem bare_bare : s.bare.bare = s.bare := by
  have h : Solver.bare ∘ Solver.bare = Solver.bare := rfl
  simp only [bare, Keyed.mapValues, List.map_map]
  rfl

theorem agree_bare (a : Answer) (s : Session σ) : Agree (a, s.bare) (a, s) := ⟨rfl, bare_bare⟩

theorem bare_leave : s.bare.leave = s.leave.bare := by
  have hl : s.bare.library = s.library := rfl
  simp only [leave, hl]
  cases s.library with
  | none => rfl
  | some l =>
    dsimp only
    split_ifs <;> rfl

theorem bare_dropInterface : s.bare.dropInterface = s.dropInterface.bare := by
  have hi : s.bare.interfaces = s.interfaces := rfl
  unfold dropInterface
  rw [hi]
  split_ifs
  · rfl
  · rw [bare_leave]
    rfl

theorem bare_afterEnd (key : Int) (w : World σ) : s.bare.afterEnd key w = (s.afterEnd key w).bare := by
  unfold afterEnd
  rw [← bare_leave]
  congr 1
  simp only [bare, Keyed.erase_mapValues]

theorem bare_dropSolver (key : Int) : s.bare.dropSolver N key = (s.dropSolver N key).bare := by
  unfold dropSolver
  rw [get?_bare]
  cases s.solvers.get? key with
  | none => rfl
  | some solver => exact bare_afterEnd key _

theorem bare_set (key : Int) (x : Solver) (w : World σ) :
    bare { s with world := w, solvers := s.solvers.set key x } =
      { s.bare with world := w, solvers := s.bare.solvers.set key x.bare } := by
  simp only [bare, Keyed.set_mapValues]

/-- What is done with a solver that is there. -/
theorem agree_onSolver {key : Int} {f f' : Solver → Answer × Session σ} (h : ∀ x, Agree (f' x.bare) (f x)) :
    Agree (s.bare.onSolver key f') (s.onSolver key f) := by
  unfold onSolver
  rw [get?_bare]
  cases s.solvers.get? key with
  | none => exact agree_bare _ s
  | some solver => exact h solver

theorem agree_runOn {key : Int} {x : Act (Focus σ) α} (answer : Except Stop α → Answer)
    (hx : Solver.Blind x) : Agree (s.bare.runOn key x answer) (s.runOn key x answer) := by
  refine agree_onSolver fun solver => ?_
  obtain ⟨hr, hf⟩ := hx ⟨solver, s.world⟩
  let r := x ⟨solver, s.world⟩
  let r' := x ⟨solver.bare, s.world⟩
  have hf : r'.2.bare = r.2.bare := hf
  refine ⟨congrArg answer hr, ?_⟩
  show bare { s.bare with world := r'.2.bare.world, solvers := s.bare.solvers.set key r'.2.solver } =
    bare { s with world := r.2.bare.world, solvers := s.solvers.set key r.2.solver }
  rw [bare_set, bare_set, bare_bare, hf]
  exact congrArg (fun x => { s.bare with world := r.2.world, solvers := s.bare.solvers.set key x })
    (show r'.2.bare.solver = r.2.bare.solver by rw [hf])

theorem agree_onInterface {f f' : Library → Answer × Session σ} (h : ∀ l, Agree (f' l) (f l)) :
    Agree (s.bare.onInterface f') (s.onInterface f) := by
  have hi : s.bare.interface? = s.interface? := rfl
  unfold onInterface
  rw [hi]
  cases s.interface? with
  | none => exact agree_bare _ s
  | some l => exact h l

theorem bare_keepSolver (l : Library) (key : Int) (solver : Solver) :
    (s.bare.keepSolver N l key solver).bare = (s.keepSolver N l key solver).bare := by
  let dropped : Session σ := ({ s with library := some l.share } : Session σ).dropSolver N key
  have hd : ({ s.bare with library := some l.share } : Session σ).dropSolver N key = dropped.bare :=
    bare_dropSolver (s := { s with library := some l.share }) key
  have hkept : ((dropped.bare.solvers.set key solver).mapValues Solver.bare) =
      (dropped.solvers.set key solver).mapValues Solver.bare := by
    rw [← Keyed.set_mapValues, ← Keyed.set_mapValues]
    exact congrArg (fun t : Session σ => t.solvers.set key solver.bare) (bare_bare (s := dropped))
  unfold keepSolver
  dsimp only
  rw [hd]
  show ({ dropped with
    solvers := (dropped.bare.solvers.set key solver).mapValues Solver.bare, handles := _ } :
      Session σ) = _
  rw [hkept]
  rfl

theorem agree_create (key : Int) : Agree (s.bare.create N key) (s.create N key) := by
  refine agree_onInterface fun l => ?_
  have hw : s.bare.world = s.world := rfl
  rw [hw]
  rcases Solver.create N l.symbols s.world with ⟨e | solver, w⟩
  · exact agree_bare _ ({ s with world := w })
  · exact ⟨rfl, bare_keepSolver (s := { s with world := w }) l key solver⟩

theorem agree_getOption (key : Int) (name : String) (keep : Option String) :
    Agree (s.bare.getOption N key name keep) (s.getOption N key name keep) := by
  have h : Agree (s.bare.runOn key (Solver.getOption N name) (.ofResult .option))
      (s.runOn key (Solver.getOption N name) (.ofResult .option)) :=
    agree_runOn _ (Solver.ignores_getOption name).blind
  unfold getOption
  generalize s.runOn key (Solver.getOption N name) (.ofResult .option) = r at h
  generalize s.bare.runOn key (Solver.getOption N name) (.ofResult .option) = r' at h
  obtain ⟨a, t⟩ := r
  obtain ⟨a', t'⟩ := r'
  obtain ⟨ha, ht⟩ := h
  have ha : a' = a := ha
  have ht : t'.bare = t.bare := ht
  subst ha
  cases a' with
  | done v =>
    cases v with
    | option o =>
      refine ⟨rfl, ?_⟩
      show ({ t'.bare with options := keep.toList.map (·, o) ++ t'.bare.options } : Session σ) =
        { t.bare with options := keep.toList.map (·, o) ++ t.bare.options }
      rw [ht]
    | _ => exact ⟨rfl, ht⟩
  | _ => exact ⟨rfl, ht⟩

/-- **The buffers make no difference to a step.** -/
theorem agree_step (action : Step) : Agree (s.bare.step N action) (s.step N action) := by
  cases action with
  | create key => exact agree_create key
  | signature => exact agree_onInterface fun l => agree_bare _ { s with world := _ }
  | origin => exact agree_onInterface fun l => agree_bare _ s
  | cloneInterface => exact agree_onInterface fun l => agree_bare _ { s with library := _, interfaces := _ }
  | dropInterface =>
    simp only [step, bare_dropInterface]
    exact agree_bare _ _
  | countKeepers => exact agree_bare _ s
  | optionsEqual a b => exact agree_bare _ s
  | add key lits redundancy => 
    refine agree_runOn _ ?_
    cases lits <;> exact Solver.blind_addClause _ redundancy
  | assume key lits =>
    refine agree_runOn _ ?_
    cases lits <;> exact Solver.blind_solveUnder _
  | solve key => exact agree_runOn _ (Solver.blind_solveUnder _)
  | val key lit =>
    refine agree_runOn _ (Solver.Ignores.blind ?_)
    cases lit <;> exact Solver.ignores_litValue _
  | failed key lit =>
    refine agree_runOn _ (Solver.Ignores.blind ?_)
    cases lit <;> exact Solver.ignores_assumptionFailed _
  | setTerminate key closure => exact agree_runOn _ (Solver.ignores_setTerminate closure).blind
  | setExport key listener maxLength =>
    exact agree_runOn _ (Solver.ignores_setExport listener maxLength).blind
  | clearTerminate key => exact agree_runOn _ Solver.ignores_clearTerminate.blind
  | clearExport key => exact agree_runOn _ Solver.ignores_clearExport.blind
  | getOptions key => exact agree_runOn _ Solver.ignores_getOptions.blind
  | getOption key name keep => exact agree_getOption key name keep
  | hasOption key name => exact agree_runOn _ (Solver.ignores_hasOption name).blind
  | setOption key option value index =>
    refine agree_onSolver fun _ => ?_
    have ho : s.bare.option? option = s.option? option := rfl
    rw [ho]
    cases s.option? option with
    | none => exact agree_bare _ s
    | some o => exact agree_runOn _ (Solver.ignores_setOption o value index).blind
  | setByName key name value index =>
    exact agree_runOn _ (Solver.ignores_setByName name value index).blind
  | configure key texts =>
    refine agree_onSolver fun _ => ?_
    cases texts.mapM Setting.read with
    | error m => exact agree_bare _ s
    | ok settings => exact agree_runOn _ (Solver.ignores_configure settings).blind
  | release key =>
    refine agree_onSolver fun solver => ⟨rfl, ?_⟩
    exact (congrArg bare (bare_afterEnd key _)).trans bare_bare
  | drop key =>
    refine agree_onSolver fun _ => ⟨rfl, ?_⟩
    exact (congrArg bare (bare_dropSolver key)).trans bare_bare

theorem agree_turn (t : Turn σ) : Agree (s.bare.turn N t) (s.turn N t) := by
  cases t with
  | client action => exact agree_step action
  | native d => exact ⟨rfl, bare_bare (s := s.visited d)⟩

/-- **The buffers make no difference to a turn.** -/
theorem turn_bare {s' : Session σ} (h : s'.bare = s.bare) (t : Turn σ) :
    Agree (s'.turn N t) (s.turn N t) := by
  obtain ⟨ha, hs⟩ := agree_turn (N := N) (s := s) t
  obtain ⟨ha', hs'⟩ := agree_turn (N := N) (s := s') t
  rw [h] at ha' hs'
  exact ⟨ha'.symm.trans ha, hs'.symm.trans hs⟩

end Session

/-- The answer to a turn, and what happened in it. -/
def Passage.report (p : Passage σ) : Report := ⟨p.answer, p.events⟩

/-- **The buffers make no difference to the answers and the events of any course.** By induction on
the turns. -/
theorem Session.course_reports {s s' : Session σ} (h : s'.bare = s.bare) (turns : List (Turn σ)) :
    (s'.course N turns).map Passage.report = (s.course N turns).map Passage.report := by
  induction turns generalizing s s' with
  | nil => rfl
  | cons t ts ih =>
    obtain ⟨ha, hs⟩ := turn_bare (N := N) h t
    have htrace {r r' : Session σ} (hr : r'.bare = r.bare) : r'.trace = r.trace :=
      show r'.bare.trace = r.bare.trace by rw [hr]
    have hreport : (s'.passage N t).report = (s.passage N t).report := by
      simp only [Passage.report, Passage.events, passage, ha, htrace h, htrace hs]
    rw [course, course, List.map_cons, List.map_cons, hreport, ih hs]

end SatClient
