import SatClient.Proofs.Placement

/-!
# Where options come from

An option remembers the solver that has read it and the place in the table of that solver. It can be
set by that solver only, and then by the description at that place.

* `Shown`: the table that a solver was shown by its one look for options
* `Passage.Gives`: a turn gives its client an option, read by a solver at a place of its table
* `Session.Unfolds`: the turns of a client which keeps options that it was given
* `Session.Traced`: the invariant; `Session.Traced.turn`: each turn keeps it
* **`options_set_where_read`**: what becomes of an option that is to be set, over all turns
* **`foreign_option_refused_iff`**: an option of another solver is refused out of hand just where the
  options of the solver are known
-/

namespace SatClient

variable {σ α : Type} {N : Native σ}

/-! ## Options that are given -/

/-- The solver `i` has looked for its options once, and was shown a table. -/
def Shown (i : Nat) (trace : List Event) (t : OptionTable) : Prop :=
  ∃ reply, looks i (exchanges trace) = [reply] ∧ reply.code.isOk ∧ reply.table = some t

theorem Shown.unique {i : Nat} {trace : List Event} {t t' : OptionTable} (h : Shown i trace t)
    (h' : Shown i trace t') : t = t' := by
  obtain ⟨reply, hl, -, ht⟩ := h
  obtain ⟨reply', hl', -, ht'⟩ := h'
  cases hl.symm.trans hl'
  exact Option.some.inj (ht.symm.trans ht')

/-- The turn gives its client an option, which the solver `x` has read at a place of its table. -/
inductive Passage.Gives (p : Passage σ) (x : Solver) : Nat → SolverOption → Prop
  | listed {key : Int} {os : List SolverOption} {k : Nat} {o : SolverOption}
      (ht : p.turn = .client (.getOptions key)) (hx : p.before.solvers.get? key = some x)
      (ha : p.answer = .done (.options os)) (ho : os[k]? = some o) : Gives p x k o
  | named {key : Int} {name : String} {keep : Option String} {t : OptionTable} {k : Nat}
      {o : SolverOption} (ht : p.turn = .client (.getOption key name keep))
      (hx : p.before.solvers.get? key = some x) (ha : p.answer = .done (.option o))
      (hs : Shown x.identity p.after.trace t) (hk : t.placeOf? name = some k) : Gives p x k o

/-- Whether a step asks for options. -/
def Step.asksOptions : Step → Bool
  | getOptions _ | getOption .. => true
  | _ => false

/-- The options in an answer. -/
def Answer.offered : Answer → List SolverOption
  | done (.option o) => [o]
  | done (.options os) => os
  | _ => []

namespace Session

/-- The client keeps an option under a name. -/
def keeping (name : String) (o : SolverOption) (s : Session σ) : Session σ :=
  { s with options := (name, o) :: s.options }

/-- The turns in `ps` have led to a session. Between them the client has kept options, which it had
been given. -/
inductive Unfolds (N : Native σ) (start : Session σ) : List (Passage σ) → Session σ → Prop
  | start : Unfolds N start [] start
  | turn {ps : List (Passage σ)} {s : Session σ} (h : Unfolds N start ps s) (t : Turn σ) :
      Unfolds N start (ps ++ [s.passage N t]) (s.turn N t).2
  | keep {ps : List (Passage σ)} {s : Session σ} {p : Passage σ} {x : Solver} {k : Nat}
      {o : SolverOption} (h : Unfolds N start ps s) (hp : p ∈ ps) (hg : p.Gives x k o)
      (name : String) : Unfolds N start ps (s.keeping name o)

/-- By induction on the turns. -/
theorem Unfolds.course {start s : Session σ} {ps : List (Passage σ)} (h : Unfolds N start ps s)
    (turns : List (Turn σ)) : Unfolds N start (ps ++ s.course N turns) (s.after N turns) := by
  induction turns generalizing ps s with
  | nil =>
    rw [Session.course, List.append_nil]
    exact h
  | cons t ts ih =>
    have hrest := ih (h.turn t)
    rw [List.append_assoc] at hrest
    exact hrest

end Session

/-! ## The invariant -/

/-- A call in which a solver sets an option by a place of the table that it was shown. -/
def Placed (trace : List Event) (r : Option Nat × Call) : Prop :=
  ∃ i t k, r.1 = some i ∧ Shown i trace t ∧ k < t.described.length ∧
    ∃ h value index, r.2 = .setOption h (some ⟨t.address, k⟩) value index

/-- An option that the solver `i` has read at the place `k` of the table that it was shown. -/
def ReadAt (trace : List Event) (i k : Nat) (o : SolverOption) : Prop :=
  ∃ t d, Shown i trace t ∧ t.described[k]? = some d ∧ o = d.option i k

theorem ReadAt.owner {trace : List Event} {i k : Nat} {o : SolverOption} (h : ReadAt trace i k o) :
    o.owner = i := by
  obtain ⟨t, d, -, -, rfl⟩ := h
  rfl

/-- Why an option of another solver is not set, by what is found of the options of the solver. -/
def SolverOption.refusal (o : SolverOption) : Except Failure Discovered → Failure
  | .ok _ => .unknownOption o.name
  | .error e => e

/-- Options are equal if they were read by one solver at one place. -/
theorem ReadAt.eq_iff {trace : List Event} {i i' k k' : Nat} {o o' : SolverOption}
    (h : ReadAt trace i k o) (h' : ReadAt trace i' k' o') : o = o' ↔ i = i' ∧ k = k' := by
  obtain ⟨t, d, hshown, hd, rfl⟩ := h
  obtain ⟨t', d', hshown', hd', rfl⟩ := h'
  constructor
  · intro heq
    exact ⟨congrArg SolverOption.owner heq, congrArg SolverOption.position heq⟩
  · rintro ⟨rfl, rfl⟩
    cases hshown.unique hshown'
    cases hd.symm.trans hd'
    rfl

/-- A solver that knows options has been shown a table with them, or none. -/
theorem Stage.Informed.found {st : Stage σ} (h : st.Informed) {x : Solver} (hx : st.HasSolver x)
    {found : Except Failure Discovered} (ho : x.options = some found) :
    ∃ reply, looks x.identity (exchanges st.world.client.trace) = [reply] ∧
      found = reply.found x.identity := by
  obtain ⟨reply, hfound, ⟨hl, -⟩ | ⟨-, hl⟩⟩ := h.finds hx (.inl ⟨ho, rfl⟩)
  · exact ⟨reply, hl, hfound⟩
  · cases hl

namespace Session

variable {s : Session σ} {t : Turn σ} {x y : Solver} {key : Int}

/-- What has been shown stays the only thing shown. -/
theorem shown_turn (hs : s.stage.Sound) (hi : s.stage.Informed) {i : Nat} {table : OptionTable}
    (h : Shown i s.trace table) (t : Turn σ) : Shown i (s.turn N t).2.trace table := by
  obtain ⟨reply, hl, hrest⟩ := h
  exact ⟨reply, looks_stays hs hi hl [t], hrest⟩

/-- The calls of a turn that set options. -/
theorem placed_turn (hs : s.stage.Sound) (hi : s.stage.Informed) (t : Turn σ) :
    ∀ r ∈ callsMade (s.passage N t).events, r.2.entry = .setOption →
      Placed (s.turn N t).2.trace r := by
  intro r hr hset
  rw [(turn_grows hs.keys t).1, callsReturned_eq] at hr
  obtain ⟨e, he, rfl⟩ := List.mem_map.mp hr
  cases h : (s.passage N t).seeker? with
  | none => exact absurd hset ((unseeking_turn hs h).1 e he).2
  | some x =>
    obtain ⟨hi', -, reply, hconsults, -⟩ := seeking_turn hs hi h
    cases t with
    | native d => cases h
    | client action =>
      obtain ⟨key, hn, hk⟩ := Option.bind_eq_some_iff.mp h
      obtain ⟨y, found, hy, hid, ho, hcites⟩ := cites_step (N := N) hs hn hk
      obtain ⟨d, rfl, place, hplace, value, index, hcall⟩ := hcites e he hset
      obtain ⟨reply', hl, hfound⟩ := hi'.found (.inl ⟨key, hy⟩) ho
      rw [Reply.found] at hfound
      split_ifs at hfound with hok
      cases hfound
      cases htable : reply'.table with
      | none =>
        rw [htable] at hplace
        cases hplace
      | some table =>
        rw [htable] at hplace
        obtain ⟨k, hlt, rfl⟩ := Discovered.mem_descriptors_ofTable.mp hplace
        refine ⟨y.identity, table, k, ?_, ⟨reply', hl, hok, htable⟩, hlt, _, value, index, hcall⟩
        rw [hid]
        exact hconsults.owner e he

/-- Whoever is given an option needs the options of the solver. -/
theorem seeker_of_gives {k : Nat} {o : SolverOption} (h : (s.passage N t).Gives x k o) :
    (s.passage N t).seeker? = some x := by
  cases h with
  | listed ht hx ha ho =>
    have ht : t = _ := ht
    subst ht
    exact hx
  | named ht hx ha hs hk =>
    have ht : t = _ := ht
    subst ht
    exact hx

/-- An answer with an option in it is no failure. -/
theorem found_of_offered {reply : Reply} (h : (s.passage N t).Consults x (reply.found x.identity))
    {v : Value} (ha : (s.passage N t).answer = .done v) :
    reply.code.isOk ∧ reply.found x.identity = .ok (.ofTable x.identity reply.table) := by
  by_cases hok : reply.code.isOk
  · exact ⟨hok, if_pos hok⟩
  · have hfails := (h.fails _ (if_neg hok)).1
    rw [ha] at hfails
    exact hfails.elim

/-- An option that a turn gives has been read where it is said to have been. -/
theorem readAt_turn (hs : s.stage.Sound) (hi : s.stage.Informed) {k : Nat} {o : SolverOption}
    (h : (s.passage N t).Gives x k o) : ReadAt (s.turn N t).2.trace x.identity k o := by
  obtain ⟨-, -, reply, hconsults, hmine⟩ := seeking_turn hs hi (seeker_of_gives h)
  cases h with
  | @listed key os k o ht hx ha ho =>
    obtain ⟨hok, hfound⟩ := found_of_offered hconsults ha
    have hread := (hconsults.reads _ _ _ hfound ht rfl).1
    rw [ha] at hread
    cases hread
    cases htable : reply.table with
    | none =>
      rw [htable] at ho
      cases ho
    | some table =>
      rw [htable, Discovered.options_ofTable_getElem?] at ho
      obtain ⟨d, hd, rfl⟩ := Option.map_eq_some_iff.mp ho
      exact ⟨table, d, ⟨reply, hmine, hok, htable⟩, hd, rfl⟩
  | @named key name keep table k o ht hx ha hshown hk =>
    obtain ⟨hok, hfound⟩ := found_of_offered hconsults ha
    have hread := (hconsults.reads _ _ _ hfound ht rfl).1
    have htable : reply.table = some table := by
      obtain ⟨reply', hl, -, htable⟩ := hshown
      cases hl.symm.trans hmine
      exact htable
    rw [ha, Discovered.named, htable] at hread
    split at hread
    · rename_i o' ho'
      cases hread
      obtain ⟨k', d, hk', hd, rfl⟩ := Discovered.named_ofTable ho'
      cases hk.symm.trans hk'
      exact ⟨table, d, hshown, hd, rfl⟩
    · cases hread

/-- A result without options gives an answer without options. -/
theorem offered_runOn (op : Act (Focus σ) α) {answer : Except Stop α → Answer}
    (h : ∀ r, (answer r).offered = []) : (s.runOn key op answer).1.offered = [] := by
  unfold runOn onSolver
  cases s.solvers.get? key with
  | none => rfl
  | some solver => exact h _

theorem offered_ofResult {f : α → Value} (h : ∀ a, (Answer.done (f a)).offered = [])
    (r : Except Stop α) : (Answer.ofResult f r).offered = [] := by
  cases r with
  | error e => rfl
  | ok a => exact h a

/-- Options are in the answers of the steps that ask for them, and in no others. -/
theorem offered_step {action : Step} (h : action.asksOptions = false) :
    (s.step N action).1.offered = [] := by
  have hunit (r : Except Stop Unit) : (Answer.ofUnit r).offered = [] := offered_ofResult (fun _ => rfl) r
  cases action with
  | getOptions key => cases h
  | getOption key name keep => cases h
  | create key =>
    simp only [step, create, onInterface]
    cases s.interface? with
    | none => rfl
    | some l =>
      dsimp only
      split <;> rfl
  | signature =>
    simp only [step, onInterface]
    cases s.interface? with
    | none => rfl
    | some l => exact offered_ofResult (fun _ => rfl) _
  | origin =>
    simp only [step, onInterface]
    cases s.interface? <;> rfl
  | cloneInterface =>
    simp only [step, onInterface]
    cases s.interface? <;> rfl
  | dropInterface => rfl
  | countKeepers => rfl
  | optionsEqual a b =>
    simp only [step, optionsEqual]
    split <;> rfl
  | add key lits redundancy => exact offered_runOn _ hunit
  | assume key lits => exact offered_runOn _ (offered_ofResult fun _ => rfl)
  | solve key => exact offered_runOn _ (offered_ofResult fun _ => rfl)
  | val key lit => exact offered_runOn _ (offered_ofResult fun _ => rfl)
  | failed key lit => exact offered_runOn _ (offered_ofResult fun _ => rfl)
  | setTerminate key closure => exact offered_runOn _ hunit
  | setExport key listener maxLength => exact offered_runOn _ hunit
  | clearTerminate key => exact offered_runOn _ hunit
  | clearExport key => exact offered_runOn _ hunit
  | hasOption key name => exact offered_runOn _ (offered_ofResult fun _ => rfl)
  | setByName key name value index => exact offered_runOn _ hunit
  | setOption key option value index =>
    simp only [step, setOption, onSolver]
    cases s.solvers.get? key with
    | none => rfl
    | some x =>
      cases s.option? option with
      | none => rfl
      | some o => exact offered_runOn _ hunit
  | configure key texts =>
    simp only [step, configure, onSolver]
    cases s.solvers.get? key with
    | none => rfl
    | some x =>
      cases texts.mapM Setting.read with
      | error m => rfl
      | ok settings => exact offered_runOn _ fun _ => rfl
  | release key =>
    simp only [step, releaseSolver, onSolver]
    cases s.solvers.get? key with
    | none => rfl
    | some x => exact hunit _
  | drop key =>
    simp only [step, onSolver]
    cases s.solvers.get? key <;> rfl

theorem offered_of_fails {a : Answer} {e : Failure} (h : a.Fails e) : a.offered = [] := by
  cases a <;> first | rfl | cases h

/-- Without a solver no options are in the answer. -/
theorem offered_of_unseeking {action : Step} (ha : action.asksOptions)
    (h : (s.passage N (.client action)).seeker? = none) : (s.step N action).1.offered = [] := by
  cases action with
  | getOptions key =>
    have hk : s.solvers.get? key = none := h
    simp only [step, runOn, onSolver, hk]
    rfl
  | getOption key name keep =>
    have hk : s.solvers.get? key = none := h
    rw [step, (getOption_kept name keep).1]
    simp only [runOn, onSolver, hk]
    rfl
  | _ => cases ha

/-- Every option in an answer is given. -/
theorem gives_of_offered (hs : s.stage.Sound) (hi : s.stage.Informed) {o : SolverOption}
    (ho : o ∈ (s.passage N t).answer.offered) : ∃ x k, (s.passage N t).Gives x k o := by
  have hnot {a : Answer} (ha : a.offered = []) : (s.passage N t).answer ≠ a := by
    rintro rfl
    rw [ha] at ho
    cases ho
  cases t with
  | native d => cases ho
  | client action =>
    cases hasks : action.asksOptions with
    | false => exact absurd rfl (hnot (offered_step hasks))
    | true =>
      cases h : (s.passage N (.client action)).seeker? with
      | none => exact absurd rfl (hnot (offered_of_unseeking hasks h))
      | some x =>
        obtain ⟨-, -, reply, hconsults, hmine⟩ := seeking_turn hs hi h
        cases hfound : reply.found x.identity with
        | error e => exact absurd rfl (hnot (offered_of_fails (hconsults.fails e hfound).1))
        | ok d =>
          refine ⟨x, ?_⟩
          cases action with
          | getOptions key =>
            have ha := (hconsults.reads _ _ _ hfound rfl rfl).1
            rw [ha] at ho
            obtain ⟨k, hk⟩ := List.mem_iff_getElem?.mp ho
            exact ⟨k, .listed rfl h ha hk⟩
          | getOption key name keep =>
            have ha := (hconsults.reads _ _ _ hfound rfl rfl).1
            rw [Discovered.named] at ha
            cases hname : d.find? name with
            | none =>
              rw [hname] at ha
              exact absurd ha (hnot rfl)
            | some o' =>
              rw [hname] at ha
              rw [ha] at ho
              cases List.mem_singleton.mp ho
              rw [Reply.found] at hfound
              split_ifs at hfound with hok
              cases hfound
              cases htable : reply.table with
              | none =>
                rw [htable] at hname
                cases hname
              | some table =>
                rw [htable] at hname
                obtain ⟨k, -, hk, -⟩ := Discovered.named_ofTable hname
                exact ⟨k, .named rfl h ha ⟨reply, hmine, hok, htable⟩ hk⟩
          | _ => cases hasks

/-! ## Identities -/

theorem nextIdentity_of_moves {es : List EntryPoint} {st st' : Stage σ} (h : Stage.Moves N es st st')
    (hi : .init ∉ es) : st'.world.nextIdentity = st.world.nextIdentity := by
  induction h with
  | refl => rfl
  | tail _ hm ih => exact (hm.nextIdentity hi).trans ih

theorem counted_create (hs : s.stage.Sound) (key : Int) :
    let made := if (s.create N key).1.isDone then (s.create N key).2.solvers.get? key else none
    (s.create N key).2.world.nextIdentity = s.world.nextIdentity + made.toList.length ∧
      ∀ x, made = some x → x.identity = s.world.nextIdentity := by
  generalize hturn : s.create N key = turned
  rw [create, onInterface] at hturn
  cases hl : s.interface? with
  | none =>
    rw [hl] at hturn
    subst hturn
    refine ⟨rfl, ?_⟩
    rintro y ⟨⟩
  | some l =>
    rw [hl] at hturn
    let called := s.world.call N none (l.symbols .init) .init
    dsimp only at hturn
    rw [create_apply] at hturn
    by_cases hok : called.1.code.isOk
    · rw [if_pos hok] at hturn
      let x := (called.2.note [.notice .created]).newborn l.symbols called.1.handle
      let opened : Session σ :=
        { s with world := (called.2.note [.notice .created]).opened called.1.handle }
      have hget : (opened.keepSolver N l key x).solvers.get? key = some x := Keyed.get?_set_self _ _ _
      have hnext : (opened.keepSolver N l key x).world.nextIdentity = s.world.nextIdentity + 1 :=
        nextIdentity_of_moves (stage_keepSolver (s := opened) (N := N)
          (List.mem_singleton.mpr rfl) hs.keys l key x) (by decide)
      subst hturn
      change (opened.keepSolver N l key x).world.nextIdentity = s.world.nextIdentity +
          ((opened.keepSolver N l key x).solvers.get? key).toList.length ∧
        ∀ y, (opened.keepSolver N l key x).solvers.get? key = some y →
          y.identity = s.world.nextIdentity
      rw [hget]
      refine ⟨hnext, ?_⟩
      rintro y ⟨⟩
      rfl
    · rw [if_neg hok] at hturn
      subst hturn
      refine ⟨rfl, ?_⟩
      rintro y ⟨⟩

/-- A solver that is made has the identity which is next, and nothing else is counted. -/
theorem counted_turn (hs : s.stage.Sound) (t : Turn σ) :
    (s.turn N t).2.world.nextIdentity =
        s.world.nextIdentity + (s.passage N t).made?.toList.length ∧
      ∀ x, (s.passage N t).made? = some x → x.identity = s.world.nextIdentity := by
  by_cases hcreate : ∃ key, t = .client (.create key)
  · obtain ⟨key, rfl⟩ := hcreate
    exact counted_create hs key
  · have hno : ∀ key, t ≠ .client (.create key) := fun key ht => hcreate ⟨key, ht⟩
    have hmade : (s.passage N t).made? = none := by
      unfold Passage.made?
      split
      · rename_i key ht
        exact absurd ht (hno key)
      · rfl
    rw [hmade]
    refine ⟨?_, nofun⟩
    cases t with
    | native d => rfl
    | client action => exact nextIdentity_of_moves (step_moves hs.keys action) (Turn.init_notMem hno)

/-! ## Courses -/

/-- What is known of a session to which the turns in `ps` have led. -/
structure Traced (ps : List (Passage σ)) (s : Session σ) : Prop where
  sound : s.stage.Sound
  informed : s.stage.Informed
  next : s.world.nextIdentity = 1 + (ps.filterMap Passage.made?).length
  counted : (ps.filterMap Passage.made?).map Solver.identity =
    List.range' 1 (ps.filterMap Passage.made?).length
  given : ∀ p ∈ ps, ∀ x k o, p.Gives x k o → ReadAt s.trace x.identity k o
  offered : ∀ p ∈ ps, ∀ o ∈ p.answer.offered, ∃ x k, p.Gives x k o
  placed : ∀ r ∈ callsMade s.trace, r.2.entry = .setOption → Placed s.trace r

/-- **Each turn keeps what is known of options.** -/
theorem Traced.turn {ps : List (Passage σ)} (h : s.Traced ps) (t : Turn σ) :
    (s.turn N t).2.Traced (ps ++ [s.passage N t]) := by
  have hshown {i : Nat} {table : OptionTable} (hs : Shown i s.trace table) :
      Shown i (s.turn N t).2.trace table := shown_turn h.sound h.informed hs t
  have hmade : (ps ++ [s.passage N t]).filterMap Passage.made? =
      ps.filterMap Passage.made? ++ (s.passage N t).made?.toList := by
    rw [List.filterMap_append, List.filterMap_cons, List.filterMap_nil]
    cases (s.passage N t).made? <;> rfl
  obtain ⟨hnext, hid⟩ := counted_turn (N := N) h.sound t
  refine ⟨sound_turn h.sound t, informed_turn h.sound h.informed t, ?_, ?_, ?_, ?_, ?_⟩
  · rw [hnext, h.next, hmade, List.length_append, Nat.add_assoc]
  · rw [hmade, List.map_append, List.length_append, ← List.range'_append, h.counted]
    congr 1
    cases hm : (s.passage N t).made? with
    | none => rfl
    | some x =>
      rw [Option.toList_some, List.map_singleton, hid x hm, h.next, Nat.one_mul]
      rfl
  · intro p hp x k o hg
    rcases List.mem_append.mp hp with hp | hp
    · obtain ⟨table, d, hs, hrest⟩ := h.given p hp x k o hg
      exact ⟨table, d, hshown hs, hrest⟩
    · rw [List.mem_singleton.mp hp] at hg
      exact readAt_turn h.sound h.informed hg
  · intro p hp o ho
    rcases List.mem_append.mp hp with hp | hp
    · exact h.offered p hp o ho
    · rw [List.mem_singleton.mp hp] at ho ⊢
      exact gives_of_offered h.sound h.informed ho
  · intro r hr hset
    rw [passage_trace h.sound.keys t, callsMade_append] at hr
    rcases List.mem_append.mp hr with hr | hr
    · obtain ⟨i, table, k, ho, hs, hrest⟩ := h.placed r hr hset
      exact ⟨i, table, k, ho, hshown hs, hrest⟩
    · exact placed_turn h.sound h.informed t r hr hset

theorem traced_start (opening : Opening) (native : σ) : (start opening native).2.Traced [] := by
  obtain ⟨trace, hs, ho⟩ := start_stage opening native
  have hnext := congrArg (fun st : Stage σ => st.world.nextIdentity) hs
  have htrace := congrArg (fun st : Stage σ => st.world.client.trace) hs
  have hnone : callsMade (start opening native).2.stage.world.client.trace = [] :=
    (congrArg callsMade htrace).trans (callsMade_of_isNote fun e he => (ho e he).2)
  exact {
    sound := sound_start opening native
    informed := informed_start opening native
    next := hnext
    counted := List.map_nil
    given := fun p hp => absurd hp List.not_mem_nil
    offered := fun p hp => absurd hp List.not_mem_nil
    placed := fun r hr => absurd (hnone ▸ hr) List.not_mem_nil }

/-- By induction on the turns; what the client keeps makes no difference. -/
theorem traced_of_unfolds {opening : Opening} {native : σ} {ps : List (Passage σ)}
    (h : Unfolds N (start opening native).2 ps s) : s.Traced ps := by
  induction h with
  | start => exact traced_start opening native
  | turn h t ih => exact ih.turn t
  | keep h hp hg name ih => exact ⟨ih.sound, ih.informed, ih.next, ih.counted, ih.given, ih.offered, ih.placed⟩

/-- Whoever was shown a table knows what is in it. -/
theorem Traced.knows {ps : List (Passage σ)} (h : s.Traced ps) (hy : s.solvers.get? key = some y)
    {table : OptionTable} (hs : Shown y.identity s.trace table) :
    y.options = some (.ok (.ofTable y.identity (some table))) := by
  obtain ⟨reply, hl, hok, htable⟩ := hs
  have hknown := h.informed.known y (.inl ⟨key, hy⟩)
  have hl : looks y.identity (exchanges s.stage.world.client.trace) = [reply] := hl
  rw [hl] at hknown
  rw [hknown, List.head?_cons, Option.map_some, Reply.found, if_pos hok, htable]

/-! ## Setting a kept option -/

theorem keeping_option? (name : String) (o : SolverOption) (s : Session σ) :
    (s.keeping name o).option? name = some o := List.lookup_cons_self

theorem step_setOption (hy : s.solvers.get? key = some y) {name : String} {o : SolverOption}
    (ho : s.option? name = some o) (value index : Int64) :
    s.step N (.setOption key name value index) =
      s.runOn key (Solver.setOption N o value index) .ofUnit := by
  rw [step, setOption, onSolver, hy]
  dsimp only
  rw [ho]

/-- The calls of a step, by the operation that it is. -/
theorem callsMade_of_runOn (hs : s.solvers.keys.Nodup) (hy : s.solvers.get? key = some y) {action : Step}
    {op : Act (Focus σ) α} {answer : Except Stop α → Answer}
    (hstep : s.step N action = s.runOn key op answer) {xs : List Exchange}
    (hx : exchanges (op ⟨y, s.world⟩).2.world.client.trace = exchanges s.trace ++ xs) :
    callsMade (s.passage N (.client action)).events = xs.map fun e => (e.owner, e.call) := by
  have ht : exchanges (s.step N action).2.trace = _ := exchanges_passage (N := N) hs (.client action)
  rw [hstep, runOn_of_get? hy] at ht
  rw [(turn_grows hs (.client action)).1, callsReturned_eq,
    List.append_cancel_left (hx.symm.trans ht)]

/-- An option of the solver itself is set by the description that stands at its place. -/
theorem own_option_set (hs : s.solvers.keys.Nodup) (hy : s.solvers.get? key = some y) {name : String}
    {o : SolverOption} (ho : s.option? name = some o) {d : Discovered}
    (hd : y.options = some (.ok d)) (howner : o.owner = y.identity) {place : Descriptor}
    (hplace : d.descriptors[o.position]? = some place) (value index : Int64) :
    callsMade (s.passage N (.client (.setOption key name value index))).events =
      [(some y.identity, .setOption y.handle (some place) value index)] := by
  obtain ⟨reply, hx⟩ := Solver.setDescribed_exchanges (N := N) place o.name value index ⟨y, s.world⟩
  rw [← Solver.setOption_known hd howner hplace] at hx
  exact callsMade_of_runOn hs hy (step_setOption hy ho value index) hx

/-- What becomes of an option of another solver, by what the solver finds of its own. -/
theorem foreign_option_stops (hs : s.solvers.keys.Nodup) (hy : s.solvers.get? key = some y)
    {name : String} {o : SolverOption} (ho : s.option? name = some o) (howner : o.owner ≠ y.identity)
    (value index : Int64) :
    let q := s.passage N (.client (.setOption key name value index))
    ∃ found looked, y.Finds found looked ∧ q.answer = .stopped (.failure (o.refusal found)) ∧
      callsMade q.events = looked.map (fun _ => (some y.identity, .options y.handle)) ∧
      q.after.solvers.get? key = some { y with options := some found } ∧
      (looked = [] → q.after = s) := by
  obtain ⟨found, looked, f, hfinds, hd, hsolver, ht, hsame⟩ := Solver.discover_finds (N := N) ⟨y, s.world⟩
  have hop : Solver.setOption N o value index ⟨y, s.world⟩ =
      (.error (.failure (o.refusal found)), f) := by
    rw [Solver.setOption_foreign howner, Act.bind_apply, hd]
    cases found <;> rfl
  have hstep := step_setOption (N := N) hy ho value index
  have hrun := hstep.trans (runOn_of_get? hy _ _)
  rw [hop] at hrun
  refine ⟨found, looked, hfinds, congrArg Prod.fst hrun, ?_, ?_, fun hnone => ?_⟩
  · have hx : exchanges (Solver.setOption N o value index ⟨y, s.world⟩).2.world.client.trace =
        exchanges s.trace ++ looked.map y.look := by rwa [hop]
    exact (callsMade_of_runOn hs hy hstep hx).trans List.map_map
  · refine (congrArg (fun r : Answer × Session σ => r.2.solvers.get? key) hrun).trans ?_
    exact (Keyed.get?_set_self _ _ _).trans (congrArg some hsolver)
  · refine (congrArg Prod.snd hrun).trans ?_
    rw [hsame hnone]
    dsimp only
    rw [Keyed.set_get?_self hy]

end Session

/-! ## Over all turns -/

/-- **An option is set where it has been read.** Solvers are numbered as they are made, from one on, so
that sixty-four bits number fewer than `2 ^ 64` of them apart. Each option that a client has been given
was read by a solver at a place of the one table that the solver was shown, and two of them are equal if
solver and place are. It is set by a call if and only if the solver is the same, and then by the
description at that place. In no call is an option set by anything else. -/
theorem options_set_where_read (N : Native σ) (opening : Session.Opening) (native : σ)
    (ps : List (Passage σ)) (s : Session σ)
    (h : Session.Unfolds N (Session.start opening native).2 ps s) :
    let made := ps.filterMap Passage.made?
    made.map Solver.identity = List.range' 1 made.length ∧
    (∀ p ∈ ps, ∀ o ∈ p.answer.offered, ∃ x k, p.Gives x k o) ∧
    (∀ p ∈ ps, ∀ x k o, p.Gives x k o → ReadAt s.trace x.identity k o ∧
      (∀ p' ∈ ps, ∀ x' k' o', p'.Gives x' k' o' → (o = o' ↔ x.identity = x'.identity ∧ k = k')) ∧
      ∀ name key y value index, s.solvers.get? key = some y →
        let calls := callsMade
          ((s.keeping name o).passage N (.client (.setOption key name value index))).events
        ((∃ c ∈ calls, c.2.entry = .setOption) ↔ y.identity = x.identity) ∧
        (y.identity = x.identity → ∃ t, Shown y.identity s.trace t ∧
          calls = [(some y.identity, .setOption y.handle (some ⟨t.address, k⟩) value index)])) ∧
    ∀ r ∈ callsMade s.trace, r.2.entry = .setOption → Placed s.trace r := by
  have ht : s.Traced ps := Session.traced_of_unfolds h
  refine ⟨ht.counted, ht.offered, fun p hp x k o hg => ?_, ht.placed⟩
  have hread := ht.given p hp x k o hg
  refine ⟨hread, fun p' hp' x' k' o' hg' => hread.eq_iff (ht.given p' hp' x' k' o' hg'),
    fun name key y value index hy => ?_⟩
  by_cases hid : y.identity = x.identity
  · obtain ⟨t, d, hshown, hd, rfl⟩ := hread
    rw [← hid] at hshown
    have hplace : (Discovered.ofTable y.identity (some t)).descriptors[k]? = some ⟨t.address, k⟩ := by
      rw [Discovered.descriptors_ofTable_getElem?, hd]
      rfl
    have hcalls := Session.own_option_set (N := N) (s := s.keeping name (d.option x.identity k))
      ht.sound.keys hy (Session.keeping_option? _ _ _) (ht.knows hy hshown) hid.symm hplace value index
    refine ⟨iff_of_true ⟨_, hcalls ▸ List.mem_cons_self, rfl⟩ hid, fun _ => ⟨t, hshown, hcalls⟩⟩
  · obtain ⟨found, looked, -, -, hcalls, -⟩ := Session.foreign_option_stops (N := N)
      (s := s.keeping name o) ht.sound.keys hy (Session.keeping_option? _ _ _)
      (hread.owner ▸ Ne.symm hid) value index
    refine ⟨iff_of_false ?_ hid, fun heq => absurd heq hid⟩
    rintro ⟨c, hc, hset⟩
    rw [hcalls] at hc
    obtain ⟨reply, -, rfl⟩ := List.mem_map.mp hc
    cases hset

/-- An option that is described twice. -/
def twin : Description := ⟨some [0x61], 0, 9, 0, 1, 0⟩

/-- Two solvers, each of which describes an option twice. -/
def twins : Scripted :=
  { script := fun e => if e = .options then List.replicate 2 { rows := some [twin, twin] } else [] }

/-- Of two options with one name the second is to be set, by the solver that has read it and by another. -/
theorem second_twin_set :
    let start := (Session.start .known twins).2
    let turns : List (Turn Scripted) := [.client (.create 0), .client (.create 1), .client (.getOptions 0)]
    let s := (start.after Scripted.native turns).keeping "a" (twin.option 1 1)
    let setting (key : Int) := s.passage Scripted.native (.client (.setOption key "a" 7 0))
    callsMade (setting 0).events = [(some 1, .setOption 1 (some ⟨0, 1⟩) 7 0)] ∧
      ∀ c ∈ callsMade (setting 1).events, c.2.entry ≠ .setOption := by
  intro start turns s setting
  obtain ⟨-, -, hgiven, -⟩ := options_set_where_read Scripted.native .known twins _ _
    (Session.Unfolds.start.course turns)
  have hmem : (start.after Scripted.native (turns.take 2)).passage Scripted.native
      (.client (.getOptions 0)) ∈ [] ++ start.course Scripted.native turns :=
    List.mem_of_getElem? (i := 2) rfl
  obtain ⟨-, -, hset⟩ := hgiven _ hmem _ 1 (twin.option 1 1) (.listed rfl rfl rfl rfl)
  obtain ⟨t, hshown, hcalls⟩ := (hset "a" 0 _ 7 0 rfl).2 rfl
  have ht : t = ⟨0, [twin, twin, .last]⟩ := hshown.unique ⟨_, rfl, rfl, rfl⟩
  subst ht
  exact ⟨hcalls, fun c hc hentry => absurd ((hset "a" 1 _ 7 0 rfl).1.mp ⟨c, hc, hentry⟩) (by decide)⟩

end SatClient
