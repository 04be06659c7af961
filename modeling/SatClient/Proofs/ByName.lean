import SatClient.Proofs.Provenance

/-!
# Options by their names

A name stands for the first option with that name, in the order of the native solver. It makes no
difference whether an option is set by its name at once, or is got by its name and then set.

* `Reply.named`, `Reply.Reads`: the description that a name stands for, and what is read of it
* `Solver.Discovers`: a state in which the options of a solver are known, and how it was reached
* `Solver.Discovers.setByName`, `Solver.Discovers.getOption`, `Solver.Discovers.hasOption`: the operations
  that are given a name
* `Session.discovers`: the reply from which the options of a solver are known
* `settingCalls`, `Passage.ComesTo`: the calls that set options, and a turn that comes to two others
* **`named_either_way`**: the two ways to set an option by its name, over all turns
-/

namespace SatClient

variable {σ α : Type} {N : Native σ}

/-! ## Names in a table -/

namespace Discovered

/-- By induction on the options. -/
theorem find?_eq_bind (d : Discovered) (name : String) :
    d.find? name = (d.position? name).bind fun k => d.options[k]? := by
  unfold find? position?
  induction d.options with
  | nil => rfl
  | cons o rest ih =>
    rw [List.find?_cons, List.findIdx?_cons]
    cases o.name == name with
    | true => rfl
    | false =>
      dsimp only
      rw [ih, if_neg Bool.false_ne_true, Option.bind_map]
      rfl

theorem position?_ofTable (i : Nat) (t : OptionTable) (name : String) :
    (ofTable i (some t)).position? name = t.placeOf? name := by
  have hnames : (ofTable i (some t)).options.map SolverOption.name =
      t.described.map fun d => Text.ofTerminated (d.name.getD []) := by
    refine List.ext_getElem? fun k => ?_
    rw [List.getElem?_map, options_ofTable_getElem?, Option.map_map, List.getElem?_map]
    rfl
  have h := congrArg (List.findIdx? (· == name)) hnames
  rw [List.findIdx?_map, List.findIdx?_map] at h
  exact h

end Discovered

/-- The description that a name stands for, by the reply to a look for options. -/
def Reply.named (r : Reply) (name : String) : Except Failure Descriptor :=
  if r.code.isOk then
    match r.table.bind fun t => (t.placeOf? name).map (Descriptor.mk t.address) with
    | some place => .ok place
    | none => .error (.unknownOption name)
  else .error (.callFailed EntryPoint.options.name r.code)

/-- What the solver `i` reads of a name: why there is no option, or an option and its description. -/
inductive Reply.Reads (r : Reply) (i : Nat) (name : String) : Except Failure Descriptor → Prop
  | failed {e : Failure} (h : r.found i = .error e) : r.Reads i name (.error e)
  | unknown {d : Discovered} (h : r.found i = .ok d) (hk : d.position? name = none)
      (ho : d.find? name = none) : r.Reads i name (.error (.unknownOption name))
  | known {d : Discovered} {k : Nat} {o : SolverOption} {place : Descriptor} (h : r.found i = .ok d)
      (hk : d.position? name = some k) (ho : d.find? name = some o) (howner : o.owner = i)
      (hposition : o.position = k) (hname : o.name = name) (hplace : d.descriptors[k]? = some place) :
      r.Reads i name (.ok place)

theorem Reply.reads (r : Reply) (i : Nat) (name : String) : r.Reads i name (r.named name) := by
  unfold named
  split_ifs with hok
  · have hfound : r.found i = .ok (.ofTable i r.table) := if_pos hok
    cases htable : r.table with
    | none =>
      rw [htable] at hfound
      exact .unknown hfound rfl rfl
    | some t =>
      rw [htable] at hfound
      have hposition := Discovered.position?_ofTable i t name
      have hfind := Discovered.find?_eq_bind (.ofTable i (some t)) name
      rw [hposition] at hfind
      rw [Option.bind_some]
      cases hk : t.placeOf? name with
      | none => exact .unknown hfound (hposition.trans hk) (hfind.trans (by rw [hk]; rfl))
      | some k =>
        obtain ⟨hlt, hname, -⟩ := List.findIdx?_eq_some_iff_getElem.mp hk
        rw [hk, Option.bind_some, Discovered.options_ofTable_getElem?,
          List.getElem?_eq_getElem hlt, Option.map_some] at hfind
        refine .known hfound (hposition.trans hk) hfind rfl rfl (beq_iff_eq.mp hname) ?_
        rw [Discovered.descriptors_ofTable_getElem?, List.getElem?_eq_getElem hlt]
        rfl
  · exact .failed (if_neg hok)

/-- A name stands for the first description with that name in the table, if there is a table. -/
theorem Reply.named_eq_ok_iff {r : Reply} {name : String} {place : Descriptor} :
    r.named name = .ok place ↔ ∃ t k, (r.code.isOk ∧ r.table = some t) ∧ t.placeOf? name = some k ∧
      place = ⟨t.address, k⟩ := by
  unfold named
  split_ifs with hok
  · cases htable : r.table with
    | none => simp
    | some t => cases hk : t.placeOf? name <;> simp [hok, hk, eq_comm]
  · simp [hok]

/-! ## Operations -/

namespace Solver

/-- From the state `f` the options become known with the reply to a look for them, which leads to the
state `f'`. The looks that are made on the way have the replies `looked`. -/
structure Discovers (N : Native σ) (f : Focus σ) (reply : Reply) (looked : List Reply) (f' : Focus σ) :
    Prop where
  discover : discover N f = ((reply.found f.solver.identity).mapError .failure, f')
  solver : f'.solver = { f.solver with options := some (reply.found f.solver.identity) }
  exchanges : exchanges f'.world.client.trace =
    exchanges f.world.client.trace ++ looked.map f.solver.look

namespace Discovers

variable {f f' : Focus σ} {reply : Reply} {looked : List Reply}

theorem bind (h : Discovers N f reply looked f') (k : Discovered → Act (Focus σ) α) :
    (Solver.discover N >>= k) f = match reply.found f.solver.identity with
      | .ok d => k d f'
      | .error e => (.error (.failure e), f') := by
  rw [Act.bind_apply, h.discover]
  cases reply.found f.solver.identity <;> rfl

theorem setByName (h : Discovers N f reply looked f') (name : String) (value index : Int64) :
    setByName N name value index f = match reply.named name with
      | .ok place => setDescribed N place name value index f'
      | .error e => (.error (.failure e), f') := by
  rw [Solver.setByName, h.bind]
  generalize reply.named name = named, reply.reads f.solver.identity name = hreads
  cases hreads with
  | failed hfound => rw [hfound]
  | unknown hfound hk ho =>
    rw [hfound]
    dsimp only
    rw [hk]
    rfl
  | known hfound hk ho howner hposition hname hplace =>
    rw [hfound]
    dsimp only
    rw [hk, Option.bind_some, hplace]

/-- An option that is got by its name is the one that is set by that name. -/
theorem getOption (h : Discovers N f reply looked f') (name : String) (value index : Int64) :
    match reply.named name with
    | .ok place => ∃ o, getOption N name f = (.ok o, f') ∧
        setOption N o value index f' = setDescribed N place name value index f'
    | .error e => Solver.getOption N name f = (.error (.failure e), f') := by
  rw [Solver.getOption, h.bind]
  generalize reply.named name = named, reply.reads f.solver.identity name = hreads
  cases hreads with
  | failed hfound => rw [hfound]
  | unknown hfound hk ho =>
    rw [hfound]
    dsimp only
    rw [ho]
    rfl
  | @known d k o place hfound hk ho howner hposition hname hplace =>
    have hd : f'.solver.options = some (.ok d) := by rw [h.solver, hfound]
    have hmine : o.owner = f'.solver.identity := by rw [h.solver, howner]
    rw [hfound]
    dsimp only
    rw [ho]
    refine ⟨o, rfl, ?_⟩
    rw [setOption_known hd hmine (hposition ▸ hplace), hname]

theorem hasOption (h : Discovers N f reply looked f') (name : String) :
    (hasOption N name f).1 = .ok true ↔ ∃ place, reply.named name = .ok place := by
  rw [Solver.hasOption, h.bind]
  generalize reply.named name = named, reply.reads f.solver.identity name = hreads
  cases hreads with
  | failed hfound => simp [hfound]
  | unknown hfound hk ho => simp [hfound, hk]
  | known hfound hk ho howner hposition hname hplace => simp [hfound, hk]

end Discovers
end Solver

/-! ## Turns -/

/-- The calls that set options. -/
def settingCalls (events : List Event) : List (Option Nat × Call) :=
  (callsMade events).filter fun c => c.2.entry = .setOption

/-- The turn comes to the same as two others, of which the second is taken if the first gives an option;
but no option is kept. -/
structure Passage.ComesTo (p got set : Passage σ) : Prop where
  both : ∀ o, got.answer = .done (.option o) → p.answer = set.answer ∧
    p.events = got.events ++ set.events ∧ p.after = { set.after with options := p.before.options }
  first : (∀ o, got.answer ≠ .done (.option o)) → p.answer = got.answer ∧ p.events = got.events ∧
    p.after = got.after

namespace Session

variable {s : Session σ} {x : Solver} {key : Int} {name : String}

/-- The session after an operation has left the solver under a key, and the world, in a state. -/
def leaving (key : Int) (f : Focus σ) (s : Session σ) : Session σ :=
  { s with world := f.world, solvers := s.solvers.set key f.solver }

/-- What the solver knows, or finds now, is the reply to its one look for options. -/
theorem discovers (hi : s.stage.Informed) (hk : s.solvers.get? key = some x) :
    ∃ reply looked f', Solver.Discovers N ⟨x, s.world⟩ reply looked f' ∧
      looks x.identity (exchanges s.trace) ++ looked = [reply] := by
  obtain ⟨found, looked, f', hfinds, hd, hsolver, ht, -⟩ :=
    Solver.discover_finds (N := N) ⟨x, s.world⟩
  obtain ⟨reply, rfl, hlooks⟩ := hi.finds (.inl ⟨key, hk⟩) hfinds
  refine ⟨reply, looked, f', ⟨hd, hsolver, ht⟩, ?_⟩
  show looks x.identity (exchanges s.stage.world.client.trace) ++ looked = [reply]
  obtain ⟨hl, rfl⟩ | ⟨hl, rfl⟩ := hlooks
  · rw [hl, List.append_nil]
  · rw [hl, List.nil_append]

theorem turn_setByName (hk : s.solvers.get? key = some x) (name : String) (value index : Int64) :
    s.turn N (.client (.setByName key name value index)) =
      (.ofUnit (Solver.setByName N name value index ⟨x, s.world⟩).1,
        s.leaving key (Solver.setByName N name value index ⟨x, s.world⟩).2) :=
  runOn_of_get? hk (Solver.setByName N name value index) .ofUnit

/-- An option that is got is kept. -/
theorem turn_getOption_ok (hk : s.solvers.get? key = some x) {o : SolverOption} {f : Focus σ}
    (h : Solver.getOption N name ⟨x, s.world⟩ = (.ok o, f)) (kept : String) :
    s.turn N (.client (.getOption key name (some kept))) =
      (.done (.option o), (s.leaving key f).keeping kept o) := by
  show s.getOption N key name (some kept) = _
  rw [getOption, runOn_of_get? hk, h]
  rfl

theorem turn_getOption_error (hk : s.solvers.get? key = some x) {e : Stop} {f : Focus σ}
    (h : Solver.getOption N name ⟨x, s.world⟩ = (.error e, f)) (kept : String) :
    s.turn N (.client (.getOption key name (some kept))) = (.stopped e, s.leaving key f) := by
  show s.getOption N key name (some kept) = _
  rw [getOption, runOn_of_get? hk, h]
  rfl

/-- An option that has just been got is set where the turn has left the solver. -/
theorem turn_setOption_kept (key : Int) (f : Focus σ) (kept : String) (o : SolverOption)
    (value index : Int64) (s : Session σ) :
    ((s.leaving key f).keeping kept o).turn N (.client (.setOption key kept value index)) =
      (.ofUnit (Solver.setOption N o value index f).1,
        (s.leaving key (Solver.setOption N o value index f).2).keeping kept o) := by
  have hget : ((s.leaving key f).keeping kept o).solvers.get? key = some f.solver :=
    Keyed.get?_set_self _ _ _
  have hset (x : Solver) : (s.solvers.set key f.solver).set key x = s.solvers.set key x :=
    Keyed.set_set _ _ _ _
  show Session.step N (.setOption key kept value index) _ = _
  rw [step_setOption hget (keeping_option? _ _ _), runOn_of_get? hget]
  simp only [leaving, keeping, hset]

/-- The events of two turns are those of a turn that leads to the same trace. -/
theorem events_of_two (hs : s.stage.Sound) {t t₁ t₂ : Turn σ}
    (h : (s.turn N t).2.trace = ((s.turn N t₁).2.turn N t₂).2.trace) :
    (s.passage N t).events = (s.passage N t₁).events ++ ((s.turn N t₁).2.passage N t₂).events := by
  refine passage_events ?_
  rw [h, passage_trace (sound_turn hs t₁).keys, passage_trace hs.keys, List.append_assoc]

/-- An option is set by its name in one call, if the name stands for a description, and not at all
otherwise. -/
theorem setByName_settings (hs : s.stage.Sound) (hk : s.solvers.get? key = some x) {reply : Reply}
    {looked : List Reply} {f : Focus σ} (h : Solver.Discovers N ⟨x, s.world⟩ reply looked f)
    (name : String) (value index : Int64) :
    settingCalls (s.passage N (.client (.setByName key name value index))).events =
      match reply.named name with
      | .ok place => [(some x.identity, .setOption x.handle (some place) value index)]
      | .error _ => [] := by
  have hop := h.setByName name value index
  have hcalls {xs : List Exchange} (hx : exchanges
      (Solver.setByName N name value index ⟨x, s.world⟩).2.world.client.trace = exchanges s.trace ++ xs) :
      callsMade (s.passage N (.client (.setByName key name value index))).events =
        xs.map fun e => (e.owner, e.call) := callsMade_of_runOn hs.keys hk rfl hx
  -- a look sets nothing
  have hlooks : ((looked.map x.look).map fun e => (e.owner, e.call)).filter
      (fun c => c.2.entry = .setOption) = [] := by
    simp [List.filter_eq_nil_iff, Solver.look, Call.entry]
  unfold settingCalls
  cases hnamed : reply.named name with
  | error e =>
    rw [hnamed] at hop
    rw [hcalls (by rw [hop]; exact h.exchanges)]
    exact hlooks
  | ok place =>
    rw [hnamed] at hop
    obtain ⟨r, hset⟩ := Solver.setDescribed_exchanges (N := N) place name value index f
    rw [h.solver, h.exchanges, List.append_assoc] at hset
    rw [hcalls (by rw [hop]; exact hset), List.map_append, List.filter_append, hlooks]
    rfl

/-- After that the one look of the solver for options has the reply. -/
theorem setByName_looks (hk : s.solvers.get? key = some x) {reply : Reply}
    {looked : List Reply} {f : Focus σ} (h : Solver.Discovers N ⟨x, s.world⟩ reply looked f)
    (hlooks : looks x.identity (exchanges s.trace) ++ looked = [reply]) (name : String)
    (value index : Int64) :
    looks x.identity (exchanges (s.turn N (.client (.setByName key name value index))).2.trace) =
      [reply] := by
  have hop := h.setByName name value index
  have hf : looks x.identity (exchanges f.world.client.trace) = [reply] := by
    rw [h.exchanges, looks_append, looks_map, if_pos rfl]
    exact hlooks
  rw [turn_setByName hk]
  show looks x.identity (exchanges
    (Solver.setByName N name value index ⟨x, s.world⟩).2.world.client.trace) = [reply]
  rw [hop]
  cases reply.named name with
  | error e => exact hf
  | ok place =>
    obtain ⟨r, hset⟩ := Solver.setDescribed_exchanges (N := N) place name value index f
    dsimp only
    rw [hset, looks_append, hf, looks_eq_nil (by simp [Call.entry]), List.append_nil]

/-- An option that is got is set afterwards as it is set by its name, and where none is got none is set by
its name either. -/
theorem setByName_comesTo (hs : s.stage.Sound) (hk : s.solvers.get? key = some x) {reply : Reply}
    {looked : List Reply} {f : Focus σ} (h : Solver.Discovers N ⟨x, s.world⟩ reply looked f)
    (name : String) (value index : Int64) (kept : String) :
    let got := s.passage N (.client (.getOption key name (some kept)))
    (s.passage N (.client (.setByName key name value index))).ComesTo got
      (got.after.passage N (.client (.setOption key kept value index))) := by
  intro got
  let p := s.passage N (.client (.setByName key name value index))
  let set := got.after.passage N (.client (.setOption key kept value index))
  have hp := turn_setByName (N := N) hk name value index
  have hget := h.getOption name value index
  rw [h.setByName] at hp
  cases hnamed : reply.named name with
  | error e =>
    rw [hnamed] at hp hget
    have hgot := turn_getOption_error hk hget kept
    have hanswer : got.answer = .stopped (.failure e) := congrArg Prod.fst hgot
    have hafter : p.after = got.after := congrArg Prod.snd (hp.trans hgot.symm)
    refine ⟨fun o ho => ?_, fun _ => ⟨congrArg Prod.fst (hp.trans hgot.symm), ?_, hafter⟩⟩
    · cases hanswer.symm.trans ho
    · exact congrArg (fun s' : Session σ => s'.trace.drop s.trace.length) hafter
  | ok place =>
    rw [hnamed] at hp hget
    obtain ⟨o, hget, hset⟩ := hget
    have hgot := turn_getOption_ok hk hget kept
    have hafter : got.after = (s.leaving key f).keeping kept o := congrArg Prod.snd hgot
    have hlast := turn_setOption_kept (N := N) key f kept o value index s
    rw [hset, ← hafter] at hlast
    have hsame : p.after = { set.after with options := s.options } := by
      rw [show p.after = _ from congrArg Prod.snd hp, show set.after = _ from congrArg Prod.snd hlast]
      rfl
    have htrace : p.after.trace = set.after.trace := by
      rw [hsame]
      rfl
    refine ⟨fun _ _ => ⟨?_, events_of_two hs htrace, hsame⟩, fun hnone => ?_⟩
    · exact (congrArg Prod.fst hp).trans (congrArg Prod.fst hlast).symm
    · exact absurd (congrArg Prod.fst hgot) (hnone o)

/-- Whether a solver has an option with a name is known from the reply to its look. -/
theorem hasOption_iff (hk : s.solvers.get? key = some x) {reply : Reply} {looked : List Reply}
    {f : Focus σ} (h : Solver.Discovers N ⟨x, s.world⟩ reply looked f) (name : String) :
    (s.passage N (.client (.hasOption key name))).answer = .done (.flag true) ↔
      ∃ place, reply.named name = .ok place := by
  have hanswer : (s.passage N (.client (.hasOption key name))).answer =
      .ofResult .flag (Solver.hasOption N name ⟨x, s.world⟩).1 :=
    congrArg Prod.fst (runOn_of_get? hk (Solver.hasOption N name) (.ofResult .flag))
  rw [hanswer, ← h.hasOption name]
  cases (Solver.hasOption N name ⟨x, s.world⟩).1 <;> simp [Answer.ofResult]

end Session

theorem shown_iff {i : Nat} {trace : List Event} {reply : Reply}
    (h : looks i (exchanges trace) = [reply]) {t : OptionTable} :
    Shown i trace t ↔ reply.code.isOk ∧ reply.table = some t := by
  constructor
  · rintro ⟨reply', hl, hok, ht⟩
    cases h.symm.trans hl
    exact ⟨hok, ht⟩
  · rintro ⟨hok, ht⟩
    exact ⟨reply, h, hok, ht⟩

/-! ## Over all turns -/

/-- **An option is set by its name as it is set when it has been got by its name.** The answer, all that
happens and the session afterwards are the same, but for the option that the client keeps; if no option is
got, that is all that happens in either way. An option is set if and only if the solver has one with the
name, in one call, and then by the first description with the name in the table that the solver was
shown. -/
theorem named_either_way (N : Native σ) (opening : Session.Opening) (native : σ)
    (turns : List (Turn σ)) :
    let s := (Session.start opening native).2.after N turns
    ∀ key x name value index kept, s.solvers.get? key = some x →
      let direct := s.passage N (.client (.setByName key name value index))
      let got := s.passage N (.client (.getOption key name (some kept)))
      direct.ComesTo got (got.after.passage N (.client (.setOption key kept value index))) ∧
      (settingCalls direct.events).length ≤ 1 ∧
      (∀ c, c ∈ settingCalls direct.events ↔
        ∃ t k, Shown x.identity direct.after.trace t ∧ t.placeOf? name = some k ∧
          c = (some x.identity, .setOption x.handle (some ⟨t.address, k⟩) value index)) ∧
      ((s.passage N (.client (.hasOption key name))).answer = .done (.flag true) ↔
        settingCalls direct.events ≠ []) := by
  intro s key x name value index kept hk direct got
  have hs : s.stage.Sound := Session.sound_after (Session.sound_start opening native) turns
  have hi : s.stage.Informed := Session.informed_after (Session.sound_start opening native)
    (Session.informed_start opening native) turns
  obtain ⟨reply, looked, f, h, hlooks⟩ := Session.discovers (N := N) hi hk
  have hsettings := Session.setByName_settings hs hk h name value index
  have hshown {t : OptionTable} :
      Shown x.identity direct.after.trace t ↔ reply.code.isOk ∧ reply.table = some t :=
    shown_iff (Session.setByName_looks hk h hlooks name value index)
  refine ⟨Session.setByName_comesTo hs hk h name value index kept, ?_, fun c => ?_, ?_⟩
  · rw [hsettings]
    cases reply.named name <;> simp
  · have hmem : c ∈ settingCalls direct.events ↔ ∃ place, reply.named name = .ok place ∧
        c = (some x.identity, .setOption x.handle (some place) value index) := by
      rw [hsettings]
      cases reply.named name <;> simp
    rw [hmem]
    constructor
    · rintro ⟨place, hplace, rfl⟩
      obtain ⟨t, k, ht, hk, rfl⟩ := Reply.named_eq_ok_iff.mp hplace
      exact ⟨t, k, hshown.mpr ht, hk, rfl⟩
    · rintro ⟨t, k, ht, hk, rfl⟩
      exact ⟨_, Reply.named_eq_ok_iff.mpr ⟨t, k, hshown.mp ht, hk, rfl⟩, rfl⟩
  · rw [Session.hasOption_iff hk h, hsettings]
    cases reply.named name <;> simp

/-- An option that is described twice is set by its name. -/
theorem first_twin_set :
    let s := (Session.start .known twins).2.after Scripted.native [.client (.create 0)]
    let direct := s.passage Scripted.native (.client (.setByName 0 "a" 7 0))
    let got := s.passage Scripted.native (.client (.getOption 0 "a" (some "k")))
    (s.solvers.get? 0).isSome ∧
      direct.ComesTo got (got.after.passage Scripted.native (.client (.setOption 0 "k" 7 0))) ∧
      got.answer.offered = [twin.option 1 0] ∧
      callsMade direct.events = [(some 1, .options 1), (some 1, .setOption 1 (some ⟨0, 0⟩) 7 0)] ∧
      (s.passage Scripted.native (.client (.hasOption 0 "a"))).answer = .done (.flag true) := by
  intro s direct got
  obtain ⟨heither, -, -, hhas⟩ :=
    named_either_way Scripted.native .known twins [.client (.create 0)] 0 _ "a" 7 0 "k" rfl
  have hcalls : callsMade direct.events =
      [(some 1, .options 1), (some 1, .setOption 1 (some ⟨0, 0⟩) 7 0)] := by decide +kernel
  refine ⟨rfl, heither, by decide +kernel, hcalls, hhas.mpr ?_⟩
  rw [settingCalls, hcalls]
  exact List.cons_ne_nil _ _

end SatClient
