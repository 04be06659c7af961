import SatClient.Proofs.Apart
import SatClient.Proofs.MockInstance

/-!
# The instances of the mock are kept apart

What the mock does with a handle depends on the instance of the handle, on the options which the
instance describes, and on the names in tables that were given beforehand. Of other instances it takes
no notice, but the faults of all of them stand in one list.

* `Mock.Part`, `Mock.part`: what the mock knows of a handle
* `Mock.Twin`: two mocks that know the same of an instance
* `Mock.Alongside`: two mocks that have been changed in the same way
* `Mock.respondInstance_matches`: they answer a call in the same way
* **`MockHost.apart`**: the mock keeps its handles apart
-/

namespace SatClient

variable {α β : Type}

theorem Dialogue.Matches.mono {P : Hook → Prop} {R S : α → β → Prop} (hRS : ∀ a b, R a b → S a b)
    {d : Dialogue α} {d' : Dialogue β} (h : d.Matches P R d') : d.Matches P S d' := by
  induction d generalizing d' with
  | done a =>
    cases d' with
    | done b => exact hRS a b h
    | _ => exact h.elim
  | poll hook next ih =>
    cases d' with
    | poll hook' next' => exact ⟨h.1, h.2.1, fun answer => ih answer (h.2.2 answer)⟩
    | _ => exact h.elim
  | offer hook memory next ih =>
    cases d' with
    | offer hook' memory' next' => exact ⟨h.1, h.2.1, h.2.2.1, ih h.2.2.2⟩
    | _ => exact h.elim
  | unregistered slot next ih =>
    cases d' with
    | unregistered slot' next' => exact ⟨h.1, ih h.2⟩
    | _ => exact h.elim

theorem Dialogue.Matches.map {γ δ : Type} {P : Hook → Prop} {R : γ → δ → Prop} {f : α → γ} {g : β → δ}
    {d : Dialogue α} {d' : Dialogue β} (h : d.Matches P (fun a b => R (f a) (g b)) d') :
    (d.map f).Matches P R (d'.map g) := by
  induction d generalizing d' with
  | done a =>
    cases d' with
    | done b => exact h
    | _ => exact h.elim
  | poll hook next ih =>
    cases d' with
    | poll hook' next' => exact ⟨h.1, h.2.1, fun answer => ih answer (h.2.2 answer)⟩
    | _ => exact h.elim
  | offer hook memory next ih =>
    cases d' with
    | offer hook' memory' next' => exact ⟨h.1, h.2.1, h.2.2.1, ih h.2.2.2⟩
    | _ => exact h.elim
  | unregistered slot next ih =>
    cases d' with
    | unregistered slot' next' => exact ⟨h.1, ih h.2⟩
    | _ => exact h.elim

namespace Mock

/-! ## Parts -/

/-- An instance, but for the position of its options. -/
def Instance.core (i : Instance) : Instance := { i with table := none }

/-- What the mock knows of a handle: the instance, the options which it describes, and the names of
options. -/
structure Part where
  id : Nat
  core : Instance
  offers : Option OptionTable
  names : Option Descriptor → String

def part (h : Handle) (m : Mock) : Option Part :=
  (m.instanceAt h).map fun id => ⟨id, (m.instanceOf id).core, m.offers id, m.nameAt⟩

/-- Two mocks know the same of an instance. -/
structure Twin (id : Nat) (m m' : Mock) : Prop where
  core : (m.instanceOf id).core = (m'.instanceOf id).core
  offers : m.offers id = m'.offers id
  names : m.nameAt = m'.nameAt

/-- What does not depend on the position of the options is the same. -/
theorem Twin.read {id : Nat} {m m' : Mock} (h : Twin id m m') (f : Instance → α)
    (hf : ∀ i, f i.core = f i) : f (m.instanceOf id) = f (m'.instanceOf id) := by
  rw [← hf, h.core, hf]

theorem part_of_instanceAt {h : Handle} {id : Nat} {m : Mock} (hi : m.instanceAt h = some id) :
    m.part h = some ⟨id, (m.instanceOf id).core, m.offers id, m.nameAt⟩ := by
  rw [part, hi]
  rfl

theorem part_eq_none {h : Handle} {m : Mock} : m.part h = none ↔ m.instanceAt h = none := Option.map_eq_none_iff

theorem twin_of_part {h : Handle} {id : Nat} {m m' : Mock} (hi : m.instanceAt h = some id)
    (hp : m.part h = m'.part h) : m'.instanceAt h = some id ∧ Twin id m m' := by
  cases hi' : m'.instanceAt h with
  | none =>
    rw [part_of_instanceAt hi, part_eq_none.mpr hi'] at hp
    cases hp
  | some id' =>
    rw [part_of_instanceAt hi, part_of_instanceAt hi'] at hp
    obtain ⟨rfl, hc, ho, hn⟩ := Part.mk.inj (Option.some.inj hp)
    exact ⟨rfl, hc, ho, hn⟩

/-! ## Side by side -/

/-- Two mocks `m` and `m'` have become `n` and `n'`, which know the same of an instance. -/
structure Alongside (id : Nat) (m m' n n' : Mock) : Prop where
  twin : Twin id n n'
  handles : n.handles = m.handles
  handles' : n'.handles = m'.handles
  log : ∃ fs, n.faults = m.faults ++ fs ∧ n'.faults = m'.faults ++ fs

namespace Alongside

variable {id : Nat} {m m' n n' k k' : Mock}

theorem refl (h : Twin id m m') : Alongside id m m' m m' := ⟨h, rfl, rfl, [], by simp⟩

theorem trans (h : Alongside id m m' n n') (h' : Alongside id n n' k k') : Alongside id m m' k k' := by
  obtain ⟨fs, hf, hf'⟩ := h.log
  obtain ⟨gs, hg, hg'⟩ := h'.log
  refine ⟨h'.twin, h'.handles.trans h.handles, h'.handles'.trans h.handles', fs ++ gs, ?_, ?_⟩
  · rw [hg, hf, List.append_assoc]
  · rw [hg', hf', List.append_assoc]

theorem fault (h : Twin id m m') (f : Fault) : Alongside id m m' (m.fault f) (m'.fault f) :=
  ⟨⟨h.core, h.offers, h.names⟩, rfl, rfl, [f], rfl, rfl⟩

/-- The instance is changed, but for the position of its options. -/
theorem change (h : Twin id m m') {f : Instance → Instance} (hf : ∀ i, (f i).core = (f i.core).core)
    (ht : ∀ i, (f i).table = i.table) : Alongside id m m' (m.change id f) (m'.change id f) := by
  have hof (m : Mock) : (m.change id f).instanceOf id = f (m.instanceOf id) := by
    rw [instanceOf_change, if_pos rfl]
  have hoffers (m : Mock) : (m.change id f).offers id = m.offers id :=
    offers_of_extends ⟨0, (List.append_nil _).symm⟩ (by rw [hof, ht])
  refine ⟨⟨?_, ?_, h.names⟩, rfl, rfl, [], by simp [Mock.change]⟩
  · rw [hof, hof, hf, h.core, ← hf]
  · rw [hoffers, hoffers, h.offers]

end Alongside

/-- Two answers are the same, but for tables that describe nothing, and leave mocks that know the same
of an instance. -/
def Parallel (id : Nat) (m m' : Mock) (r r' : Reply × Mock) : Prop :=
  r.1.trim = r'.1.trim ∧ Alongside id m m' r.2 r'.2

/-- Two computations end with the same fault, or with results that correspond. -/
def Agreeing (R : α → β → Prop) : Except Fault α → Except Fault β → Prop
  | .ok a, .ok b => R a b
  | .error f, .error f' => f = f'
  | _, _ => False

theorem Agreeing.bind {γ : Type} {R : α → β → Prop} (x : Except Fault γ) {g : γ → Except Fault α}
    {g' : γ → Except Fault β} (h : ∀ c, Agreeing R (g c) (g' c)) : Agreeing R (x >>= g) (x >>= g') := by
  cases x with
  | error f => rfl
  | ok c => exact h c

section Respond

variable {id : Nat} {m m' : Mock}

theorem refuse_parallel (h : Twin id m m') (f : Fault) : Parallel id m m' (m.refuse f) (m'.refuse f) :=
  ⟨rfl, .fault h f⟩

theorem orRefuse_parallel (h : Twin id m m') {x x' : Except Fault (Reply × Mock)}
    (hx : Agreeing (Parallel id m m') x x') : Parallel id m m' (m.orRefuse x) (m'.orRefuse x') := by
  cases x with
  | error f =>
    cases x' with
    | error f' => exact (show f = f' from hx) ▸ refuse_parallel h f
    | ok r' => exact hx.elim
  | ok r =>
    cases x' with
    | error f' => exact hx.elim
    | ok r' => exact hx

/-- The same reply is given, and nothing is changed. -/
theorem reply_parallel (h : Twin id m m') (reply : Reply) :
    Agreeing (Parallel id m m') (.ok (reply, m)) (.ok (reply, m')) := ⟨rfl, .refl h⟩

theorem change_parallel (h : Twin id m m') (reply : Reply) {f : Instance → Instance}
    (hf : ∀ i, (f i).core = (f i.core).core) (ht : ∀ i, (f i).table = i.table) :
    Agreeing (Parallel id m m') (.ok (reply, m.change id f)) (.ok (reply, m'.change id f)) :=
  ⟨rfl, .change h hf ht⟩

theorem perform_matches {P : Hook → Prop} {R : α → β → Prop} {terminate exporter : Option Hook}
    (ht : ∀ hook, terminate = some hook → P hook) (he : ∀ hook, exporter = some hook → P hook)
    {finish : Except Fault Unit → α} {finish' : Except Fault Unit → β}
    (h : ∀ outcome, R (finish outcome) (finish' outcome)) (scenes : List Scene) :
    (perform terminate exporter finish scenes).Matches P R
      (perform terminate exporter finish' scenes) := by
  induction scenes with
  | nil => exact h _
  | cons scene rest ih =>
    cases scene with
    | poll expect =>
      cases terminate with
      | none => exact h _
      | some hook =>
        refine ⟨rfl, ht hook rfl, fun answer => ?_⟩
        dsimp only
        split_ifs
        · exact ih
        · exact h _
    | offer clause =>
      cases exporter with
      | none => exact h _
      | some hook => exact ⟨rfl, rfl, he hook rfl, ih⟩

/-- The mock with a table for an instance; one that is made describes nothing. -/
def tabled (id : Nat) (m : Mock) : Mock := if (m.instanceOf id).table.isSome then m else m.addTable id []

theorem addTable_instanceOf (id : Nat) (m : Mock) :
    (m.addTable id []).instanceOf id = { m.instanceOf id with table := some m.tables.length } := by
  unfold Mock.addTable
  rw [instanceOf_change, if_pos rfl]
  simp [instanceOf]

theorem addTable_getElem? (id : Nat) (m : Mock) :
    (m.addTable id []).tables[m.tables.length]? = some [.last] := List.getElem?_concat_length

theorem offers_addTable (id : Nat) (m : Mock) : (m.addTable id []).offers id = none := by
  unfold offers
  rw [addTable_instanceOf, Option.map_some, addTable_getElem?]
  rfl

theorem tabled_offers (id : Nat) (m : Mock) : (m.tabled id).offers id = m.offers id := by
  unfold tabled
  split_ifs with ht
  · rfl
  · rw [offers_addTable, offers, Option.not_isSome_iff_eq_none.mp ht]
    rfl

/-- What a call for the options is told, but for a table that describes nothing. -/
theorem tabled_reply (id : Nat) (code : Code) (m : Mock) :
    Reply.trim { code, table := some ⟨((m.tabled id).instanceOf id).table.getD 0,
      (m.tabled id).tables[((m.tabled id).instanceOf id).table.getD 0]?.getD []⟩ } =
      { code, table := m.offers id } := by
  have hsome : ((m.tabled id).instanceOf id).table.isSome := by
    unfold tabled
    split_ifs with ht
    · exact ht
    · rw [addTable_instanceOf]
      rfl
  obtain ⟨t, ht⟩ := Option.isSome_iff_exists.mp hsome
  rw [← tabled_offers id m, offers, Reply.trim, ht]
  rfl

theorem tabled_alongside (h : Twin id m m') : Alongside id m m' (m.tabled id) (m'.tabled id) := by
  have hm (m : Mock) : ((m.tabled id).instanceOf id).core = (m.instanceOf id).core ∧
      (m.tabled id).nameAt = m.nameAt := by
    unfold tabled
    split_ifs
    · exact ⟨rfl, rfl⟩
    · have ht : Touches id m (m.addTable id []) := .addTable m
      refine ⟨?_, nameAt_of_extends ht.tables⟩
      rw [addTable_instanceOf]
      rfl
  have hlog (m : Mock) : (m.tabled id).faults = m.faults ∧ (m.tabled id).handles = m.handles := by
    unfold tabled
    split_ifs <;> exact ⟨rfl, rfl⟩
  refine ⟨⟨?_, ?_, ?_⟩, (hlog m).2, (hlog m').2, [], ?_, ?_⟩
  · rw [(hm m).1, (hm m').1, h.core]
  · rw [tabled_offers, tabled_offers, h.offers]
  · rw [(hm m).2, (hm m').2, h.names]
  · rw [(hlog m).1, List.append_nil]
  · rw [(hlog m').1, List.append_nil]

/-- The call that was expected is answered in the same way. -/
theorem respondTaken_matches {P : Hook → Prop} (h : Twin id m m')
    (hP : ∀ slot hook, m.registration slot id = some hook → P hook) (c : Call) (e : Expected) :
    (respondTaken id c e m).Matches P (Parallel id m m') (respondTaken id c e m') := by
  unfold respondTaken
  split
  · refine orRefuse_parallel h (.bind _ fun _ => .bind _ fun _ => .bind _ fun _ => ?_)
    exact reply_parallel h _
  · split
    · exact refuse_parallel h _
    · dsimp only
      rw [← h.read Instance.terminate fun _ => rfl, ← h.read Instance.exporter fun _ => rfl]
      refine perform_matches (hP .terminate) (hP .exporter) (fun outcome => ?_) _
      exact orRefuse_parallel h (.bind _ fun _ => reply_parallel h _)
  · exact orRefuse_parallel h (.bind _ fun _ => reply_parallel h _)
  · exact orRefuse_parallel h (.bind _ fun _ => reply_parallel h _)
  · exact ⟨(tabled_reply id _ m).trans ((tabled_reply id _ m').trans (by rw [h.offers])).symm,
      tabled_alongside h⟩
  · dsimp only
    rw [← h.names]
    refine orRefuse_parallel h (.bind _ fun _ => .bind _ fun _ => .bind _ fun _ => ?_)
    exact reply_parallel h _
  · rw [← h.read Instance.terminate fun _ => rfl]
    exact orRefuse_parallel h (.bind _ fun _ => change_parallel h _ (fun _ => rfl) fun _ => rfl)
  · rw [← h.read Instance.exporter fun _ => rfl]
    refine orRefuse_parallel h (.bind _ fun _ => .bind _ fun _ => ?_)
    exact change_parallel h _ (fun _ => rfl) fun _ => rfl
  · exact refuse_parallel h _

/-- What is known of an instance that has been made says whether it is live. -/
theorem live_of_made (hi : (m.instanceOf id).initialised = true) :
    m.live id = if (m.instanceOf id).released then .error .notLive else .ok (m.instanceOf id) := by
  unfold live instanceOf at *
  cases hg : m.instances.get? id with
  | none =>
    rw [hg] at hi
    cases hi
  | some i =>
    rw [hg] at hi
    have hi : i.initialised = true := hi
    show (if i.initialised && !i.released then _ else _) = if i.released then _ else _
    rw [hi]
    cases i.released <;> rfl

/-- The next call that is expected is taken from both queues, or from none. -/
theorem take_agreeing (h : Twin id m m') (hi : (m.instanceOf id).initialised = true) (e : EntryPoint) :
    Agreeing (fun r r' => r.1 = r'.1 ∧ Alongside id m m' r.2 r'.2) (m.take e id) (m'.take e id) := by
  have hi' : (m'.instanceOf id).initialised = true := (h.read Instance.initialised fun _ => rfl) ▸ hi
  unfold take
  rw [live_of_made hi, live_of_made hi', ← h.read Instance.released fun _ => rfl]
  split_ifs
  · rfl
  · simp only [bind, Except.bind]
    rw [← h.read Instance.expected fun _ => rfl]
    cases (m.instanceOf id).expected with
    | nil => rfl
    | cons expected rest =>
      dsimp only
      split_ifs
      · refine ⟨rfl, ?_⟩
        dsimp only
        exact .change h (fun _ => rfl) fun _ => rfl
      · rfl

theorem respondRelease_parallel (h : Twin id m m') (hi : (m.instanceOf id).initialised = true) :
    Parallel id m m' (m.respondRelease id) (m'.respondRelease id) := by
  have hi' : (m'.instanceOf id).initialised = true := (h.read Instance.initialised fun _ => rfl) ▸ hi
  unfold respondRelease
  rw [live_of_made hi, live_of_made hi', ← h.read Instance.released fun _ => rfl]
  split_ifs
  · exact refuse_parallel h _
  · dsimp only
    rw [← h.read Instance.expected fun _ => rfl]
    split_ifs
    · exact change_parallel h _ (fun _ => rfl) fun _ => rfl
    · exact refuse_parallel h _

/-- **A call with the handle of an instance is answered in the same way by mocks that know the same of
the instance.** -/
theorem respondInstance_matches {P : Hook → Prop} (h : Twin id m m')
    (hi : (m.instanceOf id).initialised = true)
    (hP : ∀ slot hook, m.registration slot id = some hook → P hook) (c : Call) :
    (respondInstance id c m).Matches P (Parallel id m m') (respondInstance id c m') := by
  unfold respondInstance
  split
  · exact respondRelease_parallel h hi
  · have htake := take_agreeing h hi c.entry
    rcases hm : m.take c.entry id with f | ⟨e, n⟩ <;>
      rcases hm' : m'.take c.entry id with f' | ⟨e', n'⟩ <;> rw [hm, hm'] at htake <;> dsimp only
    · have hf : f = f' := htake
      rw [hf]
      exact refuse_parallel h f'
    · exact htake.elim
    · exact htake.elim
    · obtain ⟨he, hn⟩ := htake
      have he : e = e' := he
      subst he
      have hP' : ∀ slot hook, n.registration slot id = some hook → P hook :=
        fun slot hook hh => hP slot hook (((take_alike hm).registration slot id).symm.trans hh)
      exact (respondTaken_matches hn.twin hP' c e).mono fun r r' hr => ⟨hr.1, hn.trans hr.2⟩

end Respond

end Mock

/-! ## The mock as a native solver -/

namespace MockHost

open Mock

/-- What the host knows of a handle. -/
def part (h : Handle) (host : MockHost) : Option Part := host.mock.bind fun m => m.part h

/-- A registration of the instance. -/
def holds (p : Option Part) (hook : Hook) : Prop := ∃ q slot, p = some q ∧ q.core.hook slot = some hook

def faults (host : MockHost) : List Fault := (host.mock.map Mock.faults).getD []

/-- What the mock knows of no handle: also the instances that have none yet. -/
structure Rest where
  handles : List Nat
  pending : Option Pending
  signature : Option (Option Text.Bytes × Code)
  unmade : Nat → Option Instance

def rest (host : MockHost) : Option Rest :=
  host.mock.map fun m => ⟨m.handles, m.pending, m.signature,
    fun id => if id ∈ m.handles then none else m.instances.get? id⟩

variable {host host' : MockHost} {m m' : Mock} {h : Handle} {hook : Hook}

theorem part_of_mock (hm : host.mock = some m) (h : Handle) : host.part h = m.part h := by
  rw [part, hm]
  rfl

theorem holds_iff (hm : host.mock = some m) :
    holds (host.part h) hook ↔ ∃ id slot, m.instanceAt h = some id ∧ m.registration slot id = some hook := by
  rw [part_of_mock hm]
  constructor
  · rintro ⟨q, slot, hq, hh⟩
    obtain ⟨id, hi, rfl⟩ := Option.map_eq_some_iff.mp hq
    exact ⟨id, slot, hi, by cases slot <;> exact hh⟩
  · rintro ⟨id, slot, hi, hh⟩
    exact ⟨_, slot, part_of_instanceAt hi, by cases slot <;> exact hh⟩

/-- A call with a handle leaves alone what is known of other handles. -/
theorem touches_keeps {id : Nat} (hm : host.mock = some m) (hm' : host'.mock = some m') (ho : m.Orderly)
    (hi : m.instanceAt h = some id) (ht : Touches id m m') :
    host'.rest = host.rest ∧ ∀ h', h' ≠ h → host'.part h' = host.part h' := by
  have hat : m'.instanceAt = m.instanceAt := instanceAt_of_handles ht.handles
  constructor
  · rw [rest, rest, hm, hm', Option.map_some, Option.map_some, ht.handles, ht.pending, ht.signature]
    congr 2
    funext j
    split_ifs with hj
    · rfl
    · exact ht.others j fun he => hj (he ▸ Orderly.mem_handles hi)
  · intro h' hne
    rw [part_of_mock hm, part_of_mock hm', Mock.part, Mock.part, hat]
    cases hi' : m.instanceAt h' with
    | none => rfl
    | some id' =>
      have hid : id' ≠ id := fun he => hne (ho.instanceAt_inj hi' (he ▸ hi))
      rw [Option.map_some, Option.map_some, ht.instanceOf hid, nameAt_of_extends ht.tables,
        offers_of_extends ht.tables (congrArg Instance.table (ht.instanceOf hid))]

/-- What is left by an answer. -/
theorem keeps (c : Call) (host : MockHost) (ho : ∀ m, host.mock = some m → m.Orderly) :
    (host.respond c).Ends fun r => (∀ m, r.2.mock = some m → m.Orderly) ∧
      (∀ h, c.handle? = some h → rest r.2 = rest host ∧ ∀ h', h' ≠ h → part h' r.2 = part h' host) ∧
      ∀ h hook, holds (part h r.2) hook → holds (part h host) hook ∨
        c.handle? = some h ∧ c.registration? = some (some hook.data, some hook.callback) := by
  unfold respond
  cases hm : host.mock with
  | none =>
    refine ⟨ho, fun _ _ => ⟨rfl, fun _ _ => rfl⟩, fun _ _ hh => .inl hh⟩
  | some m =>
    have horder := ho m hm
    refine Dialogue.Ends.map (((m.respond_reached host.onThread c).and (m.respond_ends host.onThread c)).mono ?_)
    rintro ⟨reply, m'⟩ ⟨hr, ha⟩
    refine ⟨?_, ?_, ?_⟩
    · rintro n ⟨⟩
      exact horder.reached hr
    · intro h hc
      cases hr with
      | faulted faults => 
        refine ⟨?_, fun h' _ => ?_⟩
        · rw [rest, rest, hm]
          rfl
        · rw [part_of_mock hm, part_of_mock rfl]
          rfl
      | touched hc' hi ht =>
        cases hc'.symm.trans hc
        exact touches_keeps hm rfl horder hi ht
      | failed hc' => cases hc' ▸ hc
      | made hc' hp => cases hc' ▸ hc
    · intro h hook hh
      obtain ⟨id, slot, hi, hreg⟩ := (holds_iff rfl).mp hh
      rcases ha.registration slot id hook hreg with hold | ⟨hreg', h', hc, hi'⟩
      · refine .inl ((holds_iff hm).mpr ⟨id, slot, ?_, hold⟩)
        rcases hr.instanceAt hi with hi | ⟨-, code, hp⟩
        · exact hi
        · -- an instance that has just been made has nothing registered
          rw [horder.registered id (horder.pending _ id hp rfl) slot] at hold
          cases hold
      · rcases hr.instanceAt hi with hi | ⟨hinit, -⟩
        · cases horder.instanceAt_inj hi hi'
          exact .inr ⟨hc, hreg'⟩
        · cases hinit ▸ hc

theorem respond_of_part_none {c : Call} (hc : c.handle? = some h) (h0 : h ≠ 0) (hp : host.part h = none) :
    host.respond c = .done ({ code := .unexplained }, host) := by
  obtain ⟨k, rfl⟩ := Nat.exists_eq_succ_of_ne_zero h0
  unfold respond
  cases hm : host.mock with
  | none => rfl
  | some m =>
    have hi : m.handles[k]? = none := part_eq_none.mp ((part_of_mock hm (k + 1)).symm.trans hp)
    have hhost : { host with mock := some m } = host := hm ▸ rfl
    dsimp only
    rw [respond_handle hc, hi]
    exact congrArg (fun host => Dialogue.done (({ code := .unexplained } : Reply), host)) hhost

/-- The instances go on as parts that are equal. -/
theorem alongside_part {id : Nat} {n n' : Mock} (hi : m.instanceAt h = some id) (hi' : m'.instanceAt h = some id)
    (ha : Alongside id m m' n n') : n.part h = n'.part h := by
  have hat {m n : Mock} (hn : n.handles = m.handles) (hi : m.instanceAt h = some id) :
      n.instanceAt h = some id := by
    rw [instanceAt_of_handles hn]
    exact hi
  rw [part_of_instanceAt (hat ha.handles hi), part_of_instanceAt (hat ha.handles' hi'), ha.twin.core,
    ha.twin.offers, ha.twin.names]

/-- What is done in a call depends on what is known of its handle. -/
theorem agrees {c : Call} (ho : ∀ m, host.mock = some m → m.Orderly) (hc : c.handle? = some h)
    (h0 : h ≠ 0) (hp : host.part h = host'.part h) :
    (host.respond c).Matches (holds (host.part h)) (fun r r' => r.1.trim = r'.1.trim ∧
      part h r.2 = part h r'.2 ∧ ∃ l, faults r.2 = faults host ++ l ∧ faults r'.2 = faults host' ++ l)
      (host'.respond c) := by
  cases hq : host.part h with
  | none =>
    rw [respond_of_part_none hc h0 hq, respond_of_part_none hc h0 (hp ▸ hq)]
    exact ⟨rfl, hp, [], by simp⟩
  | some q =>
    obtain ⟨m, hm, hqm⟩ := Option.bind_eq_some_iff.mp hq
    obtain ⟨m', hm', hqm'⟩ := Option.bind_eq_some_iff.mp (hp.symm.trans hq)
    obtain ⟨id, hi, -⟩ := Option.map_eq_some_iff.mp hqm
    obtain ⟨hi', htwin⟩ := twin_of_part hi (hqm.trans hqm'.symm)
    have hmade : (m.instanceOf id).initialised = true := ((ho m hm).made id).mp (Orderly.mem_handles hi)
    have hP (slot : Slot) (hook : Hook) (hh : m.registration slot id = some hook) :
        holds (some q) hook := by
      rw [← hq]
      exact (holds_iff hm).mpr ⟨id, slot, hi, hh⟩
    obtain ⟨k, rfl⟩ := Nat.exists_eq_succ_of_ne_zero h0
    unfold respond
    rw [hm, hm']
    dsimp only
    rw [respond_handle hc, respond_handle hc, show m.handles[k]? = some id from hi,
      show m'.handles[k]? = some id from hi']
    refine Dialogue.Matches.map ((respondInstance_matches htwin hmade hP c).mono ?_)
    rintro r r' ⟨hr, ha⟩
    refine ⟨hr, ?_, ?_⟩
    · rw [part_of_mock rfl, part_of_mock rfl]
      exact alongside_part hi hi' ha
    · simp only [faults, hm, hm', Option.map_some, Option.getD_some]
      exact ha.log

/-- **The mock keeps its handles apart.** -/
def apart : native.Apart (Option Part) Fault (Option Rest) where
  valid host := ∀ m, host.mock = some m → m.Orderly
  part := part
  holds := holds
  log := faults
  rest := rest
  keeps _ c host ho := keeps c host ho
  agrees _ _ _ _ _ ho _ hc h0 hp := agrees ho hc h0 hp

end MockHost
end SatClient
