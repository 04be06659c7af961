import Mathlib.Data.List.Forall2
import Mathlib.Logic.Function.Basic
import SatClient.Proofs.ByName
import SatClient.Proofs.Encoding
import SatClient.Proofs.MockCourse
import SatClient.Proofs.MockExact

/-!
# Options as they are described

The description without a name ends a table, and what comes after it is not read. So a client is given one
option for each description before it, in their order and with their values. A test describes the options
of a mock instance by a list of its own, and it is this list that the client is given.

* `OptionTable.described_eq`: the descriptions that are read
* `Listed`, `Session.getOptions_turn`: the options of a table; what comes of asking for all options
* `Mock.Offer.option`, `Mock.Describes`: options as a test describes them, and their descriptions
* `Mock.described`, `Mock.SameOffers`: what an instance describes; **`Mock.respond_sameOffers`**: no call
  changes it
* `Mock.options_reply`: what a mock instance answers when it is asked for its options
* `MockSession.offered`: the options that a test has last told of an instance
* `MockSession.getOptions_offered`, `MockSession.getOptions_stays`: what a client is told of them, at once
  and after more steps
* **`options_as_described`**: the options that a client is given, by any native solver and by the mock
-/

namespace SatClient

variable {σ : Type} {N : Native σ}

/-! ## Tables -/

/-- Names, if only empty ones, are read up to the first description without. -/
theorem OptionTable.described_eq {t : OptionTable} {front rest : List Description} {nameless : Description}
    (h : t.rows = front ++ nameless :: rest) (hf : ∀ d ∈ front, d.name.isSome)
    (hn : nameless.name = none) : t.described = front := by
  rw [described, h, List.takeWhile_append_of_pos hf,
    List.takeWhile_cons_of_neg (p := fun d : Description => d.name.isSome) (by simp [hn]), List.append_nil]

/-- The options `os` are read from the descriptions `front` by the solver `i`, one from each. -/
structure Listed (i : Nat) (front : List Description) (os : List SolverOption) : Prop where
  length : os.length = front.length
  each : ∀ (k : Nat) (o : SolverOption) (d : Description), os[k]? = some o → front[k]? = some d →
    o.name = Text.ofTerminated (d.name.getD []) ∧ o.min = d.min ∧ o.max = d.max ∧ o.maxState = d.maxState ∧
      (o.tunable = true ↔ d.tunable ≠ 0) ∧ (o.indexed = true ↔ d.indexed ≠ 0) ∧ o.owner = i ∧ o.position = k

theorem listed_mapIdx (i : Nat) (front : List Description) :
    Listed i front (front.mapIdx fun k d => d.option i k) := by
  refine ⟨List.length_mapIdx, fun k o d ho hd => ?_⟩
  rw [List.getElem?_mapIdx, hd] at ho
  cases ho
  exact ⟨rfl, rfl, rfl, rfl, bne_iff_ne, bne_iff_ne, rfl, rfl⟩

namespace Discovered

theorem options_ofTable (i : Nat) (t? : Option OptionTable) : (ofTable i t?).options =
    ((t?.map OptionTable.described).getD []).mapIdx fun k d => d.option i k := by
  cases t? <;> rfl

theorem descriptors_ofTable (i : Nat) (t : OptionTable) :
    (ofTable i (some t)).descriptors = (List.range t.described.length).map (Descriptor.mk t.address) := by
  refine List.ext_getElem? fun k => ?_
  rw [descriptors_ofTable_getElem?, List.getElem?_map]
  by_cases h : k < t.described.length
  · rw [List.getElem?_eq_getElem h, List.getElem?_range h]
    rfl
  · rw [List.getElem?_eq_none (Nat.le_of_not_lt h), List.getElem?_eq_none (by simpa using h)]
    rfl

end Discovered

/-! ## Turns -/

namespace Session

variable {s : Session σ} {key : Int} {x : Solver}

/-- Who asks for all options is given those that have been found, or are found now. -/
theorem getOptions_turn (hs : s.stage.Sound) (hi : s.stage.Informed) (hk : s.solvers.get? key = some x) :
    let p := s.passage N (.client (.getOptions key))
    ∃ reply y, looks x.identity (exchanges p.after.trace) = [reply] ∧
      p.after.solvers.get? key = some y ∧ y.options = some (reply.found x.identity) ∧
      (∀ d, reply.found x.identity = .ok d → p.answer = .done (.options d.options)) ∧
      ∀ e, reply.found x.identity = .error e → p.answer.Fails e := by
  have hneeds : s.needs? (.getOptions key) = some key := rfl
  obtain ⟨found, looked, f, ha⟩ := step_accessed (N := N) hneeds hk
  obtain ⟨-, -, reply, rfl, hmine⟩ := accessed_looks hs hi hk ha
  refine ⟨reply, f.solver, hmine, ?_, ha.accesses.options, (ha.reads _ rfl).2,
    fun e he => (ha.fails e he).1⟩
  show (s.step N (.getOptions key)).2.solvers.get? key = _
  rw [ha.solvers, Keyed.get?_set_self]

/-- A solver that knows nothing of its options looks for them before it calls anything else. -/
theorem look_answered (hs : s.stage.Sound) (hi : s.stage.Informed) (hk : s.solvers.get? key = some x)
    (ho : x.options = none) {action : Step} (hn : s.needs? action = some key) {P : Reply → Prop}
    (hP : ∀ a, (N.respond a (.options x.handle) s.world.native).Ends fun r => P r.1) :
    ∃ reply, P reply ∧ looks x.identity (exchanges (s.turn N (.client action)).2.trace) = [reply] := by
  obtain ⟨found, looked, f, ha⟩ := step_accessed (N := N) hn hk
  obtain ⟨hlooks, -, reply', hfound, hmine⟩ := accessed_looks hs hi hk ha
  obtain ⟨xs, hev, -⟩ := accessed_exchanges hs.keys ha.world ha.accesses
  rcases ha.accesses.finds with ⟨hknown, -⟩ | ⟨-, reply, -, rfl⟩
  · cases ho.symm.trans hknown
  · have hanswers := step_answers (N := N) hs.keys action
    rw [hev] at hanswers
    obtain ⟨_, hreply, -⟩ := hanswers.first (P := fun r => P r.1) hP
    refine ⟨reply, hreply, ?_⟩
    rw [looks_append_turn hs.keys, hlooks, if_pos rfl] at hmine ⊢
    have hbefore := hi.known x (.inl ⟨key, hk⟩)
    rw [ho] at hbefore
    cases hl : looks x.identity (exchanges s.trace) with
    | nil => rfl
    | cons r rest =>
      rw [show exchanges s.stage.world.client.trace = exchanges s.trace from rfl, hl] at hbefore
      cases hbefore

end Session

/-! ## What a test describes -/

namespace Mock

variable {m m' m'' : Mock} {id : Nat}

/-- The option that a client is given where a test has described one. -/
def Offer.option (o : Offer) (owner position : Nat) : SolverOption :=
  ⟨o.name, o.min, o.max, o.maxState, o.tunable, o.indexed, owner, position⟩

/-- The descriptions of what a test offers, one for each. -/
def Describes (offers : List Offer) (rows : List Description) : Prop :=
  List.Forall₂ (fun o d => o.description = .ok d) offers rows

theorem bytesOf_eq_ok {what text : String} {bytes : Text.Bytes} :
    bytesOf what text = .ok bytes ↔ '\x00' ∉ text.toList ∧ bytes = text.toUTF8.toList := by
  rw [← Text.zero_mem_toUTF8]
  unfold bytesOf
  dsimp only
  cases h : text.toUTF8.toList.findIdx? (· == 0) with
  | none =>
    have hno : 0 ∉ text.toUTF8.toList := fun hmem =>
      absurd (List.findIdx?_eq_none_iff.mp h 0 hmem) (by decide)
    simp only [hno, not_false_eq_true, true_and, Except.ok.injEq]
    exact eq_comm
  | some k =>
    have hzero : 0 ∈ text.toUTF8.toList := by
      obtain ⟨hlt, hk, -⟩ := List.findIdx?_eq_some_iff_getElem.mp h
      exact beq_iff_eq.mp hk ▸ List.getElem_mem hlt
    exact iff_of_false nofun fun hno => hno.1 hzero

theorem Offer.description_eq_ok {o : Offer} {d : Description} : o.description = .ok d ↔
    '\x00' ∉ o.name.toList ∧ d = ⟨some o.name.toUTF8.toList, o.min, o.max, o.maxState, oneIf o.tunable,
      oneIf o.indexed⟩ := by
  unfold Offer.description
  cases hb : bytesOf "name" o.name with
  | ok bytes =>
    obtain ⟨hno, rfl⟩ := bytesOf_eq_ok.mp hb
    simp only [hno, not_false_eq_true, true_and]
    exact ⟨fun h => (Except.ok.inj h).symm, fun h => h ▸ rfl⟩
  | error e =>
    refine iff_of_false nofun fun h => ?_
    rw [bytesOf_eq_ok.mpr ⟨h.1, rfl⟩] at hb
    cases hb

theorem oneIf_ne_zero (b : Bool) : (oneIf b != 0) = b := by cases b <;> decide

/-- What is read of the description of an offer is the offer. -/
theorem Offer.option_of_description {o : Offer} {d : Description} (h : o.description = .ok d) (i k : Nat) :
    d.option i k = o.option i k := by
  obtain ⟨hno, rfl⟩ := description_eq_ok.mp h
  simp only [Description.option, Offer.option, Option.getD_some, Text.ofTerminated_toUTF8 hno,
    oneIf_ne_zero]

/-- By induction on the offers. -/
theorem mapM_description {offers : List Offer} {rows : List Description} :
    offers.mapM Offer.description = .ok rows ↔ Describes offers rows := by
  unfold Describes
  induction offers generalizing rows with
  | nil =>
    rw [List.mapM_nil, List.forall₂_nil_left_iff]
    exact ⟨fun h => (Except.ok.inj h).symm, fun h => h ▸ rfl⟩
  | cons o rest ih =>
    rw [List.mapM_cons, List.forall₂_cons_left_iff]
    cases hd : o.description with
    | error e => exact iff_of_false nofun fun ⟨d, _, hd', _⟩ => nomatch hd'
    | ok d =>
      cases hr : rest.mapM Offer.description with
      | error e =>
        refine iff_of_false nofun fun ⟨d', rows', _, hrest, _⟩ => ?_
        cases hr.symm.trans (ih.mpr hrest)
      | ok rows' =>
        constructor
        · rintro ⟨⟩
          exact ⟨d, rows', rfl, ih.mp hr, rfl⟩
        · rintro ⟨d', rows'', hd', hrest, rfl⟩
          cases hd'
          cases hr.symm.trans (ih.mpr hrest)
          rfl

/-- Offers can be described just if there is no zero in their names. -/
theorem exists_describes_iff {offers : List Offer} :
    (∃ rows, Describes offers rows) ↔ ∀ o ∈ offers, '\x00' ∉ o.name.toList := by
  unfold Describes
  induction offers with
  | nil => exact iff_of_true ⟨[], .nil⟩ (List.forall_mem_nil _)
  | cons o rest ih =>
    rw [List.forall_mem_cons, ← ih]
    constructor
    · rintro ⟨rows, h⟩
      cases h with
      | cons hd hrest => exact ⟨(Offer.description_eq_ok.mp hd).1, _, hrest⟩
    · rintro ⟨hno, rows, hrest⟩
      exact ⟨_, .cons (Offer.description_eq_ok.mpr ⟨hno, rfl⟩) hrest⟩

namespace Describes

variable {offers : List Offer} {rows : List Description}

theorem named (h : Describes offers rows) : ∀ d ∈ rows, d.name.isSome := by
  unfold Describes at h
  induction h with
  | nil => exact List.forall_mem_nil _
  | cons hd _ ih =>
    rw [(Offer.description_eq_ok.mp hd).2]
    exact List.forall_mem_cons.mpr ⟨rfl, ih⟩

/-- By induction on the offers, of which each moves the places of those after it. -/
theorem options (h : Describes offers rows) (i n : Nat) : (rows.mapIdx fun k d => d.option i (k + n)) =
    offers.mapIdx fun k o => o.option i (k + n) := by
  unfold Describes at h
  induction h generalizing n with
  | nil => rfl
  | cons hd _ ih =>
    rw [List.mapIdx_cons, List.mapIdx_cons, Offer.option_of_description hd]
    simp only [Nat.add_right_comm _ 1 n]
    exact congrArg _ (ih (n + 1))

end Describes

/-! ## What an instance describes -/

/-- The descriptions of an instance. -/
def described (id : Nat) (m : Mock) : List Description :=
  ((m.offers id).map OptionTable.described).getD []

/-- A table that describes nothing is as good as none. -/
theorem getD_described_filter (t? : Option OptionTable) :
    ((t?.filter fun t => !t.described.isEmpty).map OptionTable.described).getD [] =
      (t?.map OptionTable.described).getD [] := by
  cases t? with
  | none => rfl
  | some t =>
    cases h : t.described with
    | nil => simp [Option.filter, h]
    | cons d rest => simp [Option.filter, h]

theorem described_eq (id : Nat) (m : Mock) : m.described id =
    ((m.instanceOf id).table.map fun t => OptionTable.described ⟨t, m.tables[t]?.getD []⟩).getD [] := by
  rw [described, offers, getD_described_filter, Option.map_map]
  rfl

/-- The table of each instance is one of those that there are. -/
def Furnished (m : Mock) : Prop := ∀ j t, (m.instanceOf j).table = some t → t < m.tables.length

/-- Each instance describes the same as before. -/
structure SameOffers (m m' : Mock) : Prop where
  offers : ∀ j, m'.offers j = m.offers j
  furnished : m.Furnished → m'.Furnished

namespace SameOffers

theorem refl (m : Mock) : SameOffers m m := ⟨fun _ => rfl, id⟩

theorem trans (h : SameOffers m m') (h' : SameOffers m' m'') : SameOffers m m'' :=
  ⟨fun j => (h'.offers j).trans (h.offers j), fun hf => h'.furnished (h.furnished hf)⟩

theorem of_tables (ht : m'.tables = m.tables)
    (hi : ∀ j, (m'.instanceOf j).table = (m.instanceOf j).table) : SameOffers m m' where
  offers j := by rw [Mock.offers, Mock.offers, ht, hi]
  furnished hf j t h := by
    rw [hi] at h
    rw [ht]
    exact hf j t h

theorem change (f : Instance → Instance) (m : Mock) (hf : ∀ i, (f i).table = i.table) :
    SameOffers m (m.change id f) := by
  refine .of_tables rfl fun j => ?_
  rw [instanceOf_change]
  split_ifs
  · exact hf _
  · rfl

/-- An instance that is asked for its options may be given a table, which describes nothing. -/
theorem tabled (id : Nat) (m : Mock) : SameOffers m (m.tabled id) := by
  by_cases hs : (m.instanceOf id).table.isSome
  · have hsame : m.tabled id = m := if_pos hs
    exact hsame.symm ▸ .refl m
  · have hadd : m.tabled id = m.addTable id [] := if_neg hs
    have ht : Touches id m (m.addTable id []) := .addTable m
    refine ⟨fun j => ?_, fun hf j t h => ?_⟩
    · by_cases hj : j = id
      · rw [hj, tabled_offers]
      · rw [hadd]
        exact offers_of_extends ht.tables (congrArg Instance.table (ht.instanceOf hj))
    · have hlength : (m.addTable id []).tables.length = m.tables.length + 1 := List.length_append
      rw [hadd, hlength]
      rw [hadd] at h
      by_cases hj : j = id
      · rw [hj, addTable_instanceOf] at h
        cases h
        exact Nat.lt_succ_self _
      · rw [ht.instanceOf hj] at h
        exact Nat.lt_succ_of_lt (hf j t h)

end SameOffers

theorem respondTaken_sameOffers (id : Nat) (c : Call) (e : Expected) (m : Mock) :
    (respondTaken id c e m).Ends fun r => SameOffers m r.2 := by
  by_cases h : e.call = .options ∧ ∃ handle, c = .options handle
  · obtain ⟨he, handle, rfl⟩ := h
    unfold respondTaken
    rw [he]
    exact SameOffers.tabled id m
  · refine (respondTaken_judged id c e m).ends fun answers r hr => ?_
    cases hr with
    | refused hnot f => exact .of_tables rfl fun _ => rfl
    | granted hfits hgranted =>
      have hne : e.call ≠ .options := fun he => by
        have hentry : c.entry = .options := by
          have := hfits.entry
          rw [he] at this
          exact this.symm
        cases c <;> cases hentry
        exact h ⟨he, _, rfl⟩
      obtain ⟨htables, htable⟩ := hgranted.tables hne
      refine .of_tables htables fun j => ?_
      by_cases hj : j = id
      · rw [hj, htable]
      · rw [hgranted.touches.instanceOf hj]

theorem respondInstance_sameOffers (id : Nat) (c : Call) (m : Mock) :
    (m.respondInstance id c).Ends fun r => SameOffers m r.2 := by
  unfold respondInstance
  split
  · show SameOffers m (m.respondRelease id).2
    rcases respondRelease_cases id m with ⟨-, heq⟩ | ⟨-, f, heq⟩
    · rw [heq]
      exact .change (fun i => { i with released := true, terminate := none, exporter := none }) m
        fun _ => rfl
    · rw [heq]
      exact .of_tables rfl fun _ => rfl
  · rcases take_next c.entry id m with ⟨e, rest, -, htake⟩ | ⟨⟨f, htake⟩, -⟩
    · rw [htake]
      have hdrawn : SameOffers m (m.drawn id rest) := .change _ m fun _ => rfl
      exact (respondTaken_sameOffers id c e _).mono fun r hr => hdrawn.trans hr
    · rw [htake]
      exact SameOffers.of_tables rfl fun _ => rfl

/-- **No call changes what an instance describes.** -/
theorem respond_sameOffers (onThread : Bool) (c : Call) (m : Mock) :
    (m.respond onThread c).Ends fun r => SameOffers m r.2 := by
  by_cases h : ∃ handle id, c.handle? = some handle ∧ m.instanceAt handle = some id
  · obtain ⟨handle, id, hc, hi⟩ := h
    rw [respond_of_instanceAt hc hi]
    exact respondInstance_sameOffers id c m
  · refine (respond_reached onThread c m).mono fun r hr => ?_
    generalize r.2 = m' at hr
    cases hr with
    | faulted faults => exact .of_tables rfl fun _ => rfl
    | failed hc => exact .of_tables rfl fun _ => rfl
    | touched hc hi ht => exact absurd ⟨_, _, hc, hi⟩ h
    | @made j code hc hp =>
      refine .of_tables rfl fun k => ?_
      have hof : (m.making j).instanceOf k = if j = k then { m.instanceOf k with initialised := true }
          else m.instanceOf k :=
        instanceOf_change j k (fun i => { i with initialised := true }) { m with pending := none }
      rw [hof]
      split_ifs <;> rfl

/-- An instance gives its options just if it is asked for them next, and with success. -/
theorem options_reply (onThread : Bool) {handle : Handle} (hi : m.instanceAt handle = some id) :
    (m.respond onThread (.options handle)).Ends fun r =>
      (r.1.code = .ok ↔ ∃ rest, m.Next .options id ⟨.options, .ok⟩ rest) ∧
        (r.1.code = .ok → ∀ i, (Discovered.ofTable i r.1.table).options =
          (m.described id).mapIdx fun k d => d.option i k) := by
  rw [respond_of_instanceAt rfl hi]
  have hasks : (Call.options handle).entry ≠ .release := by
    rintro ⟨⟩
  obtain ⟨hrefused, hjudged⟩ := respondInstance_judged id hasks m
  by_cases hnext : ∃ e rest, m.Next .options id e rest
  · obtain ⟨e, rest, hnext⟩ := hnext
    have hcall : e.call = .options := by
      have hentry := hnext.entry
      cases h : e.call <;> rw [h] at hentry <;> cases hentry
    refine (hjudged e rest hnext).ends fun answers r hr => ?_
    cases hr with
    | refused hnot f => exact absurd (by simp [Expected.Fits, hcall]) hnot
    | granted hfits hgranted =>
      have hcode : r.1.code = e.returns := congrArg Reply.code hgranted.reply
      refine ⟨?_, fun _ i => ?_⟩
      · rw [hcode]
        constructor
        · intro hok
          have he : e = ⟨.options, .ok⟩ := by rw [← hcall, ← hok]
          exact ⟨rest, he ▸ hnext⟩
        · rintro ⟨rest', hnext'⟩
          obtain ⟨rfl, -⟩ := hnext.unique hnext'
          rfl
      · have hdrawn : SameOffers m (m.drawn id rest) := .change _ m fun _ => rfl
        rw [Discovered.options_ofTable, hgranted.table, if_pos hcall, described, ← hdrawn.offers,
          ← hgranted.offers, offers, getD_described_filter]
  · obtain ⟨f, hf⟩ := hrefused fun e rest h => hnext ⟨e, rest, h⟩
    have hno : (m.refuse f).1.code ≠ .ok := by
      rintro ⟨⟩
    rw [hf]
    refine ⟨iff_of_false hno ?_, fun h => absurd h hno⟩
    rintro ⟨rest, h⟩
    exact hnext ⟨_, rest, h⟩

/-! ## What a test has told of options -/

/-- What a test has told of the options of each instance, as the mock knows it. -/
structure Recounts (offered : Nat → List Offer) (m : Mock) : Prop where
  furnished : m.Furnished
  describes : ∀ j, Describes (offered j) (m.described j)

variable {offered : Nat → List Offer}

theorem recounts_empty : Recounts (fun _ => []) {} := ⟨nofun, fun _ => .nil⟩

theorem Recounts.of_sameOffers (h : Recounts offered m) (hs : SameOffers m m') : Recounts offered m' where
  furnished := hs.furnished h.furnished
  describes j := by
    rw [described, hs.offers]
    exact h.describes j

/-- An instance describes what has been told of it last. -/
theorem Recounts.addTable (h : Recounts offered m) {offers : List Offer} {rows : List Description}
    (hd : Describes offers rows) : Recounts (Function.update offered id offers) (m.addTable id rows) := by
  have hof (j : Nat) : (m.addTable id rows).instanceOf j =
      if id = j then { m.instanceOf j with table := some m.tables.length } else m.instanceOf j := by
    unfold Mock.addTable
    dsimp only
    rw [instanceOf_change, List.length_append, List.length_singleton, Nat.add_sub_cancel]
    rfl
  have htables : (m.addTable id rows).tables = m.tables ++ [rows ++ [.last]] := rfl
  have hlast : (⟨m.tables.length, rows ++ [.last]⟩ : OptionTable).described = rows :=
    OptionTable.described_eq rfl hd.named rfl
  constructor
  · intro j t ht
    rw [htables, List.length_append, List.length_singleton]
    rw [hof] at ht
    split_ifs at ht
    · cases ht
      exact Nat.lt_succ_self _
    · exact Nat.lt_succ_of_lt (h.furnished j t ht)
  · intro j
    rw [described_eq, hof, htables]
    split_ifs with hj
    · subst hj
      rw [Option.map_some, Option.getD_some, List.getElem?_concat_length, Option.getD_some, hlast,
        Function.update_self]
      exact hd
    · rw [Function.update_of_ne (Ne.symm hj)]
      have hold := h.describes j
      rw [described_eq] at hold
      cases ht : (m.instanceOf j).table with
      | none =>
        rw [ht] at hold
        exact hold
      | some t =>
        rw [ht] at hold
        rw [Option.map_some, List.getElem?_append_left (h.furnished j t ht)]
        exact hold

theorem setOptions_eq_ok {offers : List Offer} :
    m.setOptions id offers = .ok m' ↔ ∃ rows, Describes offers rows ∧ m' = m.addTable id rows := by
  unfold setOptions
  cases hr : offers.mapM Offer.description with
  | error e =>
    refine iff_of_false nofun fun ⟨rows, hd, _⟩ => ?_
    cases hr.symm.trans (mapM_description.mpr hd)
  | ok rows =>
    constructor
    · rintro ⟨⟩
      exact ⟨rows, mapM_description.mp hr, rfl⟩
    · rintro ⟨rows', hd, rfl⟩
      cases hr.symm.trans (mapM_description.mpr hd)
      rfl

end Mock

namespace MockSession

open Mock (Offer Recounts)

variable {s : Session MockHost} {t : MockStep} {m m' : Mock}

/-- What is told in a step of the options of an instance takes the place of what was told before. -/
def tellOptions (t : MockStep) (s : Session MockHost) (offered : Nat → List Offer) : Nat → List Offer :=
  match t with
  | .setOptions id offers =>
    if (step t s).1.isDone then Function.update offered id offers else offered
  | _ => offered

/-- The options that a test has last told of each instance since the mock was made. -/
def offered (steps : List MockStep) (s : Session MockHost) : Nat → List Offer :=
  notes tellOptions (fun _ => []) steps s fun _ => []

/-- Nothing else is told of options. -/
theorem told_sameOffers {f : Mock → Except Mock.Trouble Mock} (ht : t.told? = some f) (hf : f m = .ok m')
    (hno : ∀ id offers, t ≠ .setOptions id offers) : Mock.SameOffers m m' := by
  cases t with
  | expectInit id =>
    cases ht
    obtain ⟨-, rfl⟩ := Mock.expectInit_eq hf
    exact .of_tables rfl fun _ => rfl
  | expectInitFailure code =>
    cases ht
    cases hf
    exact .of_tables rfl fun _ => rfl
  | expect id call =>
    cases ht
    cases hf
    exact .change (fun i => { i with expected := i.expected ++ [call] }) m fun _ => rfl
  | setSignature text code =>
    cases ht
    obtain ⟨bytes, rfl⟩ := Mock.setSignature_eq hf
    exact .of_tables rfl fun _ => rfl
  | setOptions id offers => exact absurd rfl (hno id offers)
  | _ => cases ht

theorem tellOptions_of_ne (hno : ∀ id offers, t ≠ .setOptions id offers) (s : Session MockHost)
    (offered : Nat → List Offer) : tellOptions t s offered = offered := by
  cases t with
  | setOptions id offers => exact absurd rfl (hno id offers)
  | _ => rfl

theorem answers_sameOffers {host' : MockHost} {b : Bool} {xs : List Exchange}
    (h : MockHost.native.Answers ⟨some m, b⟩ xs host') (hm' : host'.mock = some m') :
    Mock.SameOffers m m' := by
  obtain ⟨k, rfl, hsame⟩ := answers_keep (P := Mock.SameOffers m) h (.refl m) fun x _ k hk =>
    (k.respond_sameOffers b x.call).mono fun _ => hk.trans
  cases hm'
  exact hsame

/-- What the mock knows of what it has been told of options is kept by each step. -/
theorem recounts_step {offered : Nat → List Offer} (hs : s.stage.Sound) (hm : (host s).mock = some m)
    (hm' : (host (step t s).2).mock = some m') (h : Recounts offered m) :
    Recounts (tellOptions t s offered) m' := by
  cases step_course hs hm hm' with
  | @told f m' ht hf ha =>
    by_cases ho : ∃ id offers, t = .setOptions id offers
    · obtain ⟨id, offers, rfl⟩ := ho
      cases ht
      obtain ⟨rows, hd, rfl⟩ := Mock.setOptions_eq_ok.mp hf
      rw [tellOptions, if_pos ha]
      exact h.addTable hd
    · have hno : ∀ id offers, t ≠ .setOptions id offers := fun id offers he => ho ⟨id, offers, he⟩
      rw [tellOptions_of_ne hno]
      exact h.of_sameOffers (told_sameOffers ht hf hno)
  | kept hquiet =>
    by_cases ho : ∃ id offers, t = .setOptions id offers
    · obtain ⟨id, offers, rfl⟩ := ho
      rw [tellOptions, if_neg (by rw [hquiet rfl]; exact Bool.false_ne_true)]
      exact h
    · rw [tellOptions_of_ne fun id offers he => ho ⟨id, offers, he⟩]
      exact h
  | cleared ht =>
    subst ht
    exact h.of_sameOffers (.of_tables rfl fun _ => rfl)
  | client ht ha hhost =>
    subst ht
    exact h.of_sameOffers (answers_sameOffers ha hhost)
  | raw ht handle reply ha hhost =>
    subst ht
    exact h.of_sameOffers (answers_sameOffers ha hhost)

/-- **The mock knows what it has been told of options.** -/
theorem recounts_after (opening : Session.Opening) (steps : List MockStep) :
    let s := (Session.start opening {}).2
    ∀ m, (host (after steps s)).mock = some m → Recounts (offered steps s) m :=
  notes_keep (Q := fun m offered => Recounts offered m) opening steps Mock.recounts_empty (fun _ => rfl)
    fun _ _ _ _ _ hs hm hm' h => recounts_step hs.sound hm hm' h

section Discovery

variable {key : Int} {x y : Solver} {id : Nat} {reply : Reply}

/-- A solver whose instance describes options looks for them in the first step that needs them. -/
theorem look_offered (hs : s.stage.Sound) (hi : s.stage.Informed) (hm : (host s).mock = some m)
    (hk : s.solvers.get? key = some x) (ho : x.options = none) (hid : m.instanceAt x.handle = some id)
    {action : Step} (hn : s.needs? action = some key) (b : Bool) :
    ∃ reply, ((reply.code = .ok ↔ ∃ rest, m.Next .options id ⟨.options, .ok⟩ rest) ∧
        (reply.code = .ok → ∀ i, (Discovered.ofTable i reply.table).options =
          (m.described id).mapIdx fun k d => d.option i k)) ∧
      looks x.identity (exchanges (step (.client action b) s).2.trace) = [reply] := by
  let s₁ := setHost { host s with onThread := b } s
  have hturns : ByTurns s s₁ := .setHost _ s
  refine Session.look_answered (s := s₁) (hturns.sound hs) (hturns.informed hs hi) hk ho hn fun a => ?_
  have hmock : s₁.world.native.mock = some m := hm
  exact (MockHost.respond_of_mock hmock (m.options_reply b hid)).mono fun r ⟨_, _, hr⟩ => hr

/-- All options of a solver are read from the reply to its one look, if there has been one. -/
theorem getOptions_looked (hs : s.stage.Sound) (hi : s.stage.Informed) {b : Bool}
    (hk : s.solvers.get? key = some y)
    (hl : looks y.identity (exchanges (step (.client (.getOptions key) b) s).2.trace) = [reply]) :
    (reply.code = .ok → (step (.client (.getOptions key) b) s).1 =
        .done (.options (Discovered.ofTable y.identity reply.table).options)) ∧
      (reply.code ≠ .ok → ∀ os, (step (.client (.getOptions key) b) s).1 ≠ .done (.options os)) := by
  let s₁ := setHost { host s with onThread := b } s
  have hturns : ByTurns s s₁ := .setHost _ s
  obtain ⟨reply', -, hl', -, -, hdone, hfails⟩ :=
    Session.getOptions_turn (N := MockHost.native) (s := s₁) (hturns.sound hs) (hturns.informed hs hi) hk
  cases hl'.symm.trans hl
  refine ⟨fun hok => hdone _ (if_pos ((Code.isOk_iff _).mpr hok)), fun hne os ha => ?_⟩
  have hno := hfails _ (if_neg fun hok => hne ((Code.isOk_iff _).mp hok))
  have ha : (s₁.passage MockHost.native (.client (.getOptions key))).answer = .done (.options os) := ha
  rw [ha] at hno
  exact hno

/-- What a solver has looked for it knows after any steps. -/
theorem looks_byTurns {s' : Session MockHost} (h : ByTurns s s') (hs : s.stage.Sound)
    (hi : s.stage.Informed) {i : Nat} (hl : looks i (exchanges s.trace) = [reply]) :
    looks i (exchanges s'.trace) = [reply] := by
  obtain ⟨turns, rfl⟩ := h
  exact Session.looks_stays hs hi hl turns

/-- The answer to a solver that has not looked yet tells what is described, just if its instance expects to
be asked. -/
theorem getOptions_offered (hs : s.stage.Sound) (hi : s.stage.Informed) (hm : (host s).mock = some m)
    (hk : s.solvers.get? key = some x) (ho : x.options = none) (hid : m.instanceAt x.handle = some id)
    (b : Bool) (os : List SolverOption) :
    (step (.client (.getOptions key) b) s).1 = .done (.options os) ↔
      (∃ rest, m.Next .options id ⟨.options, .ok⟩ rest) ∧
        os = (m.described id).mapIdx fun k d => d.option x.identity k := by
  have hneeds : s.needs? (.getOptions key) = some key := rfl
  obtain ⟨reply, ⟨hnext, hoptions⟩, hl⟩ := look_offered hs hi hm hk ho hid hneeds b
  obtain ⟨hdone, hfails⟩ := getOptions_looked hs hi hk hl
  rw [← hnext]
  constructor
  · intro ha
    by_cases hok : reply.code = .ok
    · rw [hdone hok, hoptions hok] at ha
      cases ha
      exact ⟨hok, rfl⟩
    · exact absurd ha (hfails hok os)
  · rintro ⟨hok, rfl⟩
    rw [hdone hok, hoptions hok]

/-- What was described when a solver first needed its options it is told after any steps. -/
theorem getOptions_stays (hs : s.stage.Sound) (hi : s.stage.Informed) (hm : (host s).mock = some m)
    (hk : s.solvers.get? key = some x) (ho : x.options = none) (hid : m.instanceAt x.handle = some id)
    (hexpected : ∃ rest, m.Next .options id ⟨.options, .ok⟩ rest) {action : Step}
    (hn : s.needs? action = some key) (b : Bool) {s' : Session MockHost}
    (hturns : ByTurns (step (.client action b) s).2 s') {key' : Int}
    (hk' : s'.solvers.get? key' = some y) (hy : y.identity = x.identity) (b' : Bool) :
    (step (.client (.getOptions key') b') s').1 =
      .done (.options ((m.described id).mapIdx fun k d => d.option x.identity k)) := by
  obtain ⟨reply, ⟨hnext, hoptions⟩, hl⟩ := look_offered hs hi hm hk ho hid hn b
  have hok : reply.code = .ok := hnext.mpr hexpected
  have hfirst := step_byTurns (.client action b) s
  have hs₁ := hfirst.sound hs
  have hi₁ := hfirst.informed hs hi
  have hl' := looks_byTurns (hturns.trans (step_byTurns (.client (.getOptions key') b') s')) hs₁ hi₁ hl
  rw [← hy] at hl'
  rw [(getOptions_looked (hturns.sound hs₁) (hturns.informed hs₁ hi₁) hk' hl').1 hok, hy, hoptions hok]

end Discovery

/-- Options that can be described are told to the mock. -/
theorem step_setOptions (hm : (host s).mock = some m) {id : Nat} {offers : List Offer}
    {rows : List Description} (hd : Mock.Describes offers rows) :
    step (.setOptions id offers) s = (.done .nothing, setMock (some (m.addTable id rows)) s) := by
  have htell : step (.setOptions id offers) s = _ := onMock_of_mock hm
  rw [htell]
  dsimp only
  rw [Mock.setOptions_eq_ok.mpr ⟨rows, hd, rfl⟩]

/-- A test is told whether its options can be described. -/
theorem setOptions_answer (hm : (host s).mock = some m) (id : Nat) (offers : List Offer) :
    (step (.setOptions id offers) s).1 = .done .nothing ↔ ∀ o ∈ offers, '\x00' ∉ o.name.toList := by
  rw [← Mock.exists_describes_iff]
  have htell : step (.setOptions id offers) s = _ := onMock_of_mock hm
  rw [htell]
  dsimp only
  cases hset : m.setOptions id offers with
  | ok m' =>
    obtain ⟨rows, hd, -⟩ := Mock.setOptions_eq_ok.mp hset
    exact iff_of_true rfl ⟨rows, hd⟩
  | error e =>
    refine iff_of_false nofun fun ⟨rows, hd⟩ => ?_
    cases hset.symm.trans (Mock.setOptions_eq_ok.mpr ⟨rows, hd, rfl⟩)

end MockSession

/-! ## All options -/

/-- What comes of a turn in which a client asks for all options of the solver `x`, by the reply to the one
look for them. -/
structure Passage.Lists (p : Passage σ) (key : Int) (x : Solver) (reply : Reply) : Prop where
  looked : looks x.identity (exchanges p.after.trace) = [reply]
  absent : reply.code = .ok → reply.table = none → p.answer = .done (.options [])
  /-- Of the descriptions those before the first without a name are read, whatever comes after it. The
  solver keeps their places beside the options. -/
  described : reply.code = .ok → ∀ (t : OptionTable) (front rest : List Description)
    (nameless : Description), reply.table = some t → t.rows = front ++ nameless :: rest →
    (∀ d ∈ front, d.name.isSome) → nameless.name = none →
    ∃ os y, p.answer = .done (.options os) ∧ Listed x.identity front os ∧
      p.after.solvers.get? key = some y ∧
      y.options = some (.ok ⟨os, (List.range front.length).map (Descriptor.mk t.address)⟩)

theorem Session.getOptions_lists {s : Session σ} {key : Int} {x : Solver} (hs : s.stage.Sound)
    (hi : s.stage.Informed) (hk : s.solvers.get? key = some x) :
    ∃ reply, (s.passage N (.client (.getOptions key))).Lists key x reply := by
  obtain ⟨reply, y, hl, hy, hknown, hdone, -⟩ := getOptions_turn (N := N) hs hi hk
  have hfound (hok : reply.code = .ok) : reply.found x.identity = .ok (.ofTable x.identity reply.table) :=
    if_pos ((Code.isOk_iff _).mpr hok)
  refine ⟨reply, hl, fun hok hnone => ?_, fun hok t front rest nameless ht hrows hnamed hlast => ?_⟩
  · rw [hdone _ (hfound hok), hnone]
    rfl
  · have hdescribed := OptionTable.described_eq hrows hnamed hlast
    have hd : Discovered.ofTable x.identity reply.table = ⟨front.mapIdx fun k d => d.option x.identity k,
        (List.range front.length).map (Descriptor.mk t.address)⟩ := by
      rw [ht, ← hdescribed, ← Discovered.descriptors_ofTable x.identity]
      rfl
    refine ⟨_, y, hdone _ (hfound hok), ?_, hy, ?_⟩
    · rw [hd]
      exact listed_mapIdx x.identity front
    · rw [hknown, hfound hok, hd]

/-- **A client is given the options as they are described.** From any array of descriptions in which one
has no name it is given an option for each description before the first such, in order, and from no array
none. With the mock these are the options that the test has told of the instance of the solver, field by
field, before the solver first needed them, and none if it has told of none. They can be told just if there
is no zero in their names, and they are found just if the instance expects to be asked for them and to
succeed. -/
theorem options_as_described (opening : Session.Opening) :
    (∀ (σ : Type) (N : Native σ) (native : σ) (turns : List (Turn σ)) (key : Int) (x : Solver),
      let s := (Session.start opening native).2.after N turns
      s.solvers.get? key = some x →
        ∃ reply, (s.passage N (.client (.getOptions key))).Lists key x reply) ∧
    ∀ steps : List MockStep,
      let start := (Session.start opening ({} : MockHost)).2
      let s := MockSession.after steps start
      ∀ m, (MockSession.host s).mock = some m →
        (∀ id offers, (MockSession.step (.setOptions id offers) s).1 = .done .nothing ↔
          ∀ o ∈ offers, '\x00' ∉ o.name.toList) ∧
        ∀ key x id, s.solvers.get? key = some x → x.options = none → m.instanceAt x.handle = some id →
          let listed := (MockSession.offered steps start id).mapIdx fun k o => o.option x.identity k
          (∀ b os, (MockSession.step (.client (.getOptions key) b) s).1 = .done (.options os) ↔
            (∃ rest, m.Next .options id ⟨.options, .ok⟩ rest) ∧ os = listed) ∧
          ((∃ rest, m.Next .options id ⟨.options, .ok⟩ rest) → ∀ action b, s.needs? action = some key →
            ∀ later key' y b',
              let s' := MockSession.after later (MockSession.step (.client action b) s).2
              s'.solvers.get? key' = some y → y.identity = x.identity →
                (MockSession.step (.client (.getOptions key') b') s').1 = .done (.options listed)) := by
  constructor
  · intro σ N native turns key x s hk
    have hstart := Session.sound_start opening native
    exact Session.getOptions_lists (Session.sound_after hstart turns)
      (Session.informed_after hstart (Session.informed_start opening native) turns) hk
  · intro steps start s m hm
    refine ⟨fun id offers => MockSession.setOptions_answer hm id offers, ?_⟩
    intro key x id hk ho hid listed
    have hstart : start.stage.Sound := Session.sound_start opening _
    have hturns : MockSession.ByTurns start s := MockSession.after_byTurns steps start
    have hs : s.stage.Sound := hturns.sound hstart
    have hi : s.stage.Informed := hturns.informed hstart (Session.informed_start opening _)
    have hlisted : (m.described id).mapIdx (fun k d => d.option x.identity k) = listed :=
      ((MockSession.recounts_after opening steps m hm).describes id).options x.identity 0
    rw [← hlisted]
    refine ⟨fun b os => MockSession.getOptions_offered hs hi hm hk ho hid b os, ?_⟩
    intro hexpected action b hn later key' y b' s' hk' hy
    exact MockSession.getOptions_stays hs hi hm hk ho hid hexpected hn b (MockSession.after_byTurns later _)
      hk' hy b'

/-- A native solver that has a table of options and does nothing else. -/
def shelf (table : Option OptionTable) : Native Unit where
  respond _ call _ := .done <| match call with
    | .init => ({ handle := 1 }, ())
    | .options _ => ({ table }, ())
    | _ => ({}, ())

/-- An option without letters is described, one that is no text, and after the end of the table another;
and a test tells of two options. -/
theorem empty_name_listed :
    let row (name : Option Text.Bytes) : Description := ⟨name, -1, 9, 0, 2, 0⟩
    let front : List Description := [row (some []), row (some [0x61, 0xFF])]
    let table : OptionTable := ⟨7, front ++ row none :: [row (some [0x62])]⟩
    let N := shelf (some table)
    let s := (Session.start .known ()).2.after N [.client (.create 0)]
    let told : List Mock.Offer := [⟨"é", -1, 9, 4, true, false⟩, ⟨"", 0, 0, 0, false, true⟩]
    let steps : List MockStep :=
      [.setOptions 1 told, .expectInit 1, .expect 1 ⟨.options, .ok⟩, .client (.create 0) true]
    let s' := MockSession.after steps (Session.start .known {}).2
    (∃ os, (s.passage N (.client (.getOptions 0))).answer = .done (.options os) ∧
        Listed 1 front os) ∧
      (MockSession.step (.client (.getOptions 0) true) s').1 =
        .done (.options (told.mapIdx fun k o => o.option 1 k)) := by
  intro row front table N s told steps s'
  obtain ⟨hany, hmock⟩ := options_as_described .known
  constructor
  · obtain ⟨reply, h⟩ := hany Unit N () [.client (.create 0)] 0 _ rfl
    have hreply : reply = { table := some table } := (List.singleton_inj.mp h.looked).symm
    subst hreply
    obtain ⟨os, -, ha, hlisted, -⟩ :=
      h.described rfl table front _ (row none) rfl rfl (by simp [front, row]) rfl
    exact ⟨os, ha, hlisted⟩
  · let start := (Session.start .known ({} : MockHost)).2
    have hnames : ∀ o ∈ told, '\x00' ∉ o.name.toList := by decide
    obtain ⟨rows, hd⟩ := Mock.exists_describes_iff.mpr hnames
    have htold : MockSession.step (.setOptions 1 told) start =
        (.done .nothing, MockSession.setMock (some (({} : Mock).addTable 1 rows)) start) :=
      MockSession.step_setOptions rfl hd
    have hsteps : s' = MockSession.after steps.tail (MockSession.step (.setOptions 1 told) start).2 := rfl
    have hoffered : MockSession.offered steps start 1 = told := by
      unfold MockSession.offered
      rw [MockSession.notes, MockSession.tellOptions, htold]
      rfl
    have hmade : ∃ m x rest, (MockSession.host s').mock = some m ∧ s'.solvers.get? 0 = some x ∧
        x.options = none ∧ x.identity = 1 ∧ m.instanceAt x.handle = some 1 ∧
        m.Next .options 1 ⟨.options, .ok⟩ rest := by
      rw [hsteps, htold]
      exact ⟨_, _, _, rfl, rfl, rfl, rfl, rfl, rfl, ⟨rfl, rfl⟩, rfl⟩
    obtain ⟨m, x, rest, hm, hx, ho, hid, hinstance, hnext⟩ := hmade
    obtain ⟨-, hlists⟩ := hmock steps m hm
    have hlisted := ((hlists 0 x 1 hx ho hinstance).1 true _).mpr ⟨⟨rest, hnext⟩, rfl⟩
    rw [hoffered, hid] at hlisted
    exact hlisted

end SatClient
