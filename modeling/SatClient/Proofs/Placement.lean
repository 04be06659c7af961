import SatClient.Proofs.Discovery

/-!
# Setting options by their places

An option is set by the description at its place in the table of the solver.

* `OptionTable.placeOf?`: the place of a name in a table
* `Solver.Cites`, `Solver.Quotes`: operations that set options by the places that they find
* `Solver.setOption_known`, `Solver.setOption_foreign`: setting an option of the solver, or of another
* `Session.cites_step`: the steps that set options
-/

namespace SatClient

variable {σ α : Type} {N : Native σ}

/-! ## Tables and places -/

/-- The place of the first description with a name. -/
def OptionTable.placeOf? (t : OptionTable) (name : String) : Option Nat :=
  t.described.findIdx? fun d => Text.ofTerminated (d.name.getD []) == name

namespace Discovered

variable {i k : Nat} {t : OptionTable}

theorem options_ofTable_getElem? (t : OptionTable) (i k : Nat) :
    (ofTable i (some t)).options[k]? = (t.described[k]?).map fun d => d.option i k :=
  List.getElem?_mapIdx

theorem descriptors_ofTable_getElem? (t : OptionTable) (i k : Nat) :
    (ofTable i (some t)).descriptors[k]? = (t.described[k]?).map fun _ => ⟨t.address, k⟩ :=
  List.getElem?_mapIdx

theorem mem_descriptors_ofTable {d : Descriptor} :
    d ∈ (ofTable i (some t)).descriptors ↔ ∃ k < t.described.length, d = ⟨t.address, k⟩ := by
  rw [ofTable, List.mem_mapIdx]
  constructor
  · rintro ⟨k, hk, rfl⟩
    exact ⟨k, hk, rfl⟩
  · rintro ⟨k, hk, rfl⟩
    exact ⟨k, hk, rfl⟩

/-- The first option with a name is that of the first description with the name. -/
theorem named_ofTable {name : String} {o : SolverOption}
    (h : (ofTable i (some t)).find? name = some o) :
    ∃ k d, t.placeOf? name = some k ∧ t.described[k]? = some d ∧ o = d.option i k := by
  obtain ⟨hname, k, hk, rfl, hbefore⟩ := List.find?_eq_some_iff_getElem.mp h
  have hlen : k < t.described.length := by simpa [ofTable] using hk
  have hget (j : Nat) (hj : j < (ofTable i (some t)).options.length) :
      (ofTable i (some t)).options[j] =
        (t.described.get ⟨j, by simpa [ofTable] using hj⟩).option i j :=
    List.getElem_mapIdx
  refine ⟨k, t.described[k], ?_, List.getElem?_eq_getElem hlen, hget k hk⟩
  refine List.findIdx?_eq_some_iff_getElem.mpr ⟨hlen, ?_, fun j hj => ?_⟩
  · rw [hget k hk] at hname
    exact hname
  · have hother := hbefore j hj
    rw [hget j (Nat.lt_trans hj hk)] at hother
    simpa [Description.option] using hother

end Discovered

/-! ## Operations that set options -/

namespace Solver

/-- Between two states options are set by the places that were found, and by no others. -/
def Cites (found : Except Failure Discovered) (f f' : Focus σ) : Prop :=
  ∃ xs, exchanges f'.world.client.trace = exchanges f.world.client.trace ++ xs ∧
    ∀ e ∈ xs, e.call.entry = .setOption → ∃ d, found = .ok d ∧ ∃ place ∈ d.descriptors,
      ∃ value index, e.call = .setOption f.solver.handle (some place) value index

namespace Cites

variable {found : Except Failure Discovered} {f f' f'' : Focus σ}

theorem of_note {events : List Event} (hn : exchanges events = []) (h : Cites found (f.note events) f') :
    Cites found f f' := by
  obtain ⟨xs, ht, hx⟩ := h
  exact ⟨xs, ht.trans (congrArg (· ++ xs) (exchanges_note hn)), hx⟩

theorem refl (f : Focus σ) : Cites found f f :=
  ⟨[], (List.append_nil _).symm, fun _ he => absurd he List.not_mem_nil⟩

theorem trans (h : Cites found f f') (h' : Cites found f' f'')
    (hh : f'.solver.handle = f.solver.handle) : Cites found f f'' := by
  obtain ⟨xs, ht, hx⟩ := h
  obtain ⟨xs', ht', hx'⟩ := h'
  refine ⟨xs ++ xs', by rw [ht', ht, List.append_assoc], fun e he hset => ?_⟩
  rcases List.mem_append.mp he with he | he
  · exact hx e he hset
  · exact hh ▸ hx' e he hset

/-- A look for options sets none. -/
theorem of_accesses {found' : Except Failure Discovered} {looked : List Reply}
    (h : Accesses [] found' looked f f') : Cites found f f' := by
  obtain ⟨xs, ht, hx⟩ := h.calls
  refine ⟨looked.map f.solver.look ++ xs, by rw [ht, List.append_assoc], fun e he hset => ?_⟩
  rcases List.mem_append.mp he with he | he
  · obtain ⟨reply, -, rfl⟩ := List.mem_map.mp he
    cases hset
  · exact absurd (hx e he).2 List.not_mem_nil

end Cites

theorem check_exchanges (e : EntryPoint) (code : Code) (f : Focus σ) :
    exchanges (check e code f).2.world.client.trace = exchanges f.world.client.trace := by
  rw [check_apply]
  split_ifs
  · rfl
  · exact exchanges_note rfl

/-- An option is set in one call. -/
theorem setDescribed_exchanges (place : Descriptor) (name : String) (value index : Int64)
    (f : Focus σ) :
    ∃ reply, exchanges (setDescribed N place name value index f).2.world.client.trace =
      exchanges f.world.client.trace ++
        [⟨some f.solver.identity, .setOption f.solver.handle (some place) value index, reply⟩] := by
  let told := f.note [.notice (.assigning name value index)]
  let called := told.call N (.setOption f.solver.handle (some place) value index)
  refine ⟨called.1, ?_⟩
  rw [setDescribed_apply, check_exchanges]
  refine (World.call_exchanges _ _ _ _).trans ?_
  exact congrArg (· ++ [_]) (exchanges_note rfl)

/-- The options are looked for unless they are known, and then known. -/
theorem discover_finds (f : Focus σ) :
    ∃ found looked f', f.solver.Finds found looked ∧ discover N f = (found.mapError .failure, f') ∧
      f'.solver = { f.solver with options := some found } ∧
      exchanges f'.world.client.trace = exchanges f.world.client.trace ++ looked.map f.solver.look ∧
      (looked = [] → f' = f) := by
  rw [discover_apply]
  cases ho : f.solver.options with
  | some found =>
    exact ⟨found, [], f, .inl ⟨ho, rfl⟩, rfl, by rw [← ho], (List.append_nil _).symm, fun _ => rfl⟩
  | none =>
    let called := f.call N (.options f.solver.handle)
    have hcall : exchanges called.2.world.client.trace =
        exchanges f.world.client.trace ++ [called.1].map f.solver.look := World.call_exchanges _ _ _ _
    refine ⟨called.1.found f.solver.identity, [called.1], (lookForOptions N f).2,
      .inr ⟨ho, _, rfl, rfl⟩, ?_⟩
    rw [lookForOptions_apply]
    dsimp only
    rw [Reply.found]
    split_ifs with hok
    · exact ⟨rfl, rfl, (exchanges_note rfl).trans hcall, nofun⟩
    · exact ⟨rfl, rfl, (exchanges_note rfl).trans hcall, nofun⟩

/-- An option of another solver cannot be set. The options are looked for all the same. -/
theorem setOption_foreign {option : SolverOption} {f : Focus σ}
    (h : option.owner ≠ f.solver.identity) (value index : Int64) :
    setOption N option value index f =
      (discover N >>= fun _ => .fail (.unknownOption option.name)) f := by
  rw [setOption_apply]
  simp only [if_neg h]

/-- An option of the solver itself is set by its place, once the options are known. -/
theorem setOption_known {option : SolverOption} {f : Focus σ} {d : Discovered}
    (hd : f.solver.options = some (.ok d)) (h : option.owner = f.solver.identity) {place : Descriptor}
    (hp : d.descriptors[option.position]? = some place) (value index : Int64) :
    setOption N option value index f = setDescribed N place option.name value index f := by
  rw [setOption_apply, Act.bind_apply, discover_apply, hd]
  simp only [Except.mapError, if_pos h, hp]

/-- An operation that sets options by the places that it finds. -/
def Quotes (x : Act (Focus σ) α) : Prop :=
  ∀ f, ∃ found, (x f).2.solver.options = some found ∧ Cites found f (x f).2

/-- An operation that needs the options, and sets one which it picks from those that are found. -/
theorem quotes_picked (pick : Discovered → Option Descriptor) (hpick : ∀ d, ∀ place ∈ pick d,
    place ∈ d.descriptors) (name : String) (value index : Int64) :
    Quotes (discover N >>= fun d => match pick d with
      | some place => setDescribed N place name value index
      | none => .fail (.unknownOption name)) := by
  intro f
  obtain ⟨found, looked, f', ha, hf⟩ := discovered_bind (N := N) (fun d => match pick d with
    | some place => setDescribed N place name value index
    | none => .fail (.unknownOption name)) f
  refine ⟨found, ?_⟩
  rw [hf]
  cases found with
  | error e => exact ⟨ha.options, .of_accesses ha⟩
  | ok d =>
    have hkeeps := (moves_setFound (N := N) (pick d) name value index f').retains (by decide)
    refine ⟨hkeeps.options.trans ha.options, (Cites.of_accesses ha).trans ?_ ha.handle⟩
    dsimp only
    cases hp : pick d with
    | none => exact .refl f'
    | some place =>
      obtain ⟨reply, ht⟩ := setDescribed_exchanges (N := N) place name value index f'
      refine ⟨_, ht, fun e he _ => ⟨d, rfl, place, hpick d place hp, value, index, ?_⟩⟩
      rw [List.mem_singleton.mp he]

theorem quotes_setOption (option : SolverOption) (value index : Int64) :
    Quotes (setOption N option value index) := by
  intro f
  rw [setOption_apply]
  refine quotes_picked (fun d => if option.owner = f.solver.identity then
    d.descriptors[option.position]? else none) (fun d place hp => ?_) option.name value index f
  have hp : (if option.owner = f.solver.identity then d.descriptors[option.position]? else none) =
    some place := hp
  split_ifs at hp
  exact List.mem_of_getElem? hp

theorem quotes_setByName (name : String) (value index : Int64) :
    Quotes (setByName N name value index) := by
  refine quotes_picked (fun d => (d.position? name).bind fun i => d.descriptors[i]?)
    (fun d place hp => ?_) name value index
  obtain ⟨k, -, hk⟩ := Option.bind_eq_some_iff.mp hp
  exact List.mem_of_getElem? hk

/-- By induction on the settings, for which the options are known. -/
theorem cites_configure {found : Except Failure Discovered} (settings : List Setting) (f : Focus σ)
    (hk : f.solver.options = some found) :
    (configure N settings f).2.solver.options = some found ∧ Cites found f (configure N settings f).2 := by
  induction settings generalizing f with
  | nil => exact ⟨hk, .refl f⟩
  | cons s rest ih =>
    let told := f.note [.notice (.applying s)]
    obtain ⟨found', ho, hc⟩ := quotes_setByName (N := N) s.name s.value s.index told
    obtain ⟨found'', looked, ha, -⟩ := sets_setByName (N := N) s.name s.value s.index told
    have hsome : told.solver.options.isSome := by
      show f.solver.options.isSome
      rw [hk]
      rfl
    have hkeeps := ha.retains hsome
    have hfound : found' = found := Option.some.inj (ho.symm.trans (hkeeps.options.trans hk))
    subst hfound
    rw [configure_cons_apply, Act.bind_apply]
    rcases h : setByName N s.name s.value s.index told with ⟨e | u, f'⟩
    · rw [h] at ho hc
      exact ⟨ho, hc.of_note rfl⟩
    · rw [h] at ho hc hkeeps
      obtain ⟨ho', hc'⟩ := ih f' ho
      exact ⟨ho', (hc.of_note rfl).trans hc' hkeeps.handle⟩

theorem quotes_configure (s : Setting) (rest : List Setting) : Quotes (configure N (s :: rest)) := by
  intro f
  let told := f.note [.notice (.applying s)]
  obtain ⟨found, ho, hc⟩ := quotes_setByName (N := N) s.name s.value s.index told
  obtain ⟨found', looked, ha, -⟩ := sets_setByName (N := N) s.name s.value s.index told
  refine ⟨found, ?_⟩
  rw [configure_cons_apply, Act.bind_apply]
  rcases h : setByName N s.name s.value s.index told with ⟨e | u, f'⟩
  · rw [h] at ho hc
    exact ⟨ho, hc.of_note rfl⟩
  · rw [h] at ho hc ha
    obtain ⟨ho', hc'⟩ := cites_configure rest f' ho
    exact ⟨ho', (hc.of_note rfl).trans hc' ha.handle⟩

end Solver

/-! ## Steps -/

namespace Session

variable {s : Session σ} {x : Solver} {key : Int}

/-- A step that may set options is an operation which sets them by the places that it finds. -/
theorem quoted_step {action : Step} (hn : s.needs? action = some key)
    (hk : s.solvers.get? key = some x) (he : .setOption ∈ action.entries) :
    ∃ (op : Act (Focus σ) Unit) (answer : Except Stop Unit → Answer),
      Solver.Quotes op ∧ s.step N action = s.runOn key op answer := by
  cases action with
  | setByName k name value index =>
    cases hn
    exact ⟨_, _, Solver.quotes_setByName name value index, rfl⟩
  | setOption k option value index =>
    rw [needs?] at hn
    cases ho : s.option? option with
    | none =>
      rw [ho] at hn
      cases hn
    | some o =>
      rw [ho] at hn
      cases hn
      refine ⟨Solver.setOption N o value index, .ofUnit, Solver.quotes_setOption o value index, ?_⟩
      rw [step, setOption, onSolver, hk]
      dsimp only
      rw [ho]
  | configure k texts =>
    rw [needs?] at hn
    cases ht : texts.mapM Setting.read with
    | error m =>
      rw [ht] at hn
      cases hn
    | ok settings =>
      rw [ht] at hn
      cases settings with
      | nil => cases hn
      | cons first rest =>
        cases hn
        refine ⟨Solver.configure N (first :: rest), .configured (first :: rest),
          Solver.quotes_configure first rest, ?_⟩
        rw [step, configure, onSolver, hk]
        dsimp only
        rw [ht]
  | _ => simp [Step.entries] at he

/-- In a step options are set by places of which the solver knows afterwards. -/
theorem cites_step (hs : s.stage.Sound) {action : Step} (hn : s.needs? action = some key)
    (hk : s.solvers.get? key = some x) :
    ∃ y found, (s.step N action).2.solvers.get? key = some y ∧ y.identity = x.identity ∧
      y.options = some found ∧
      ∀ e ∈ exchanges (s.passage N (.client action)).events, e.call.entry = .setOption →
        ∃ d, found = .ok d ∧ ∃ place ∈ d.descriptors, ∃ value index,
          e.call = .setOption x.handle (some place) value index := by
  by_cases he : .setOption ∈ action.entries
  · obtain ⟨op, answer, hop, hstep⟩ := quoted_step (N := N) hn hk he
    obtain ⟨found, ho, xs, ht, hx⟩ := hop ⟨x, s.world⟩
    obtain ⟨found', looked, f, ha⟩ := step_accessed (N := N) hn hk
    rw [runOn_of_get? hk] at hstep
    have hf : (s.step N action).2.solvers.get? key = some f.solver := by
      rw [ha.solvers]
      exact Keyed.get?_set_self _ _ _
    have hf' : (s.step N action).2.solvers.get? key = some (op ⟨x, s.world⟩).2.solver := by
      rw [hstep]
      exact Keyed.get?_set_self _ _ _
    have hsolver : f.solver = (op ⟨x, s.world⟩).2.solver := Option.some.inj (hf.symm.trans hf')
    refine ⟨f.solver, found, hf, ha.accesses.identity, hsolver ▸ ho, ?_⟩
    have hev : exchanges (s.step N action).2.world.client.trace = _ :=
      exchanges_passage (N := N) hs.keys (.client action)
    rw [hstep] at hev
    rw [← List.append_cancel_left (ht.symm.trans hev)]
    exact hx
  · obtain ⟨found, looked, f, ha⟩ := step_accessed (N := N) hn hk
    refine ⟨f.solver, found, ?_, ha.accesses.identity, ha.accesses.options, fun e hm hset => ?_⟩
    · rw [ha.solvers]
      exact Keyed.get?_set_self _ _ _
    · have hentry := entry_mem_of_allowed (turn_grows hs.keys (.client action)).2 e hm
      rw [hset] at hentry
      exact absurd hentry he

end Session

end SatClient
