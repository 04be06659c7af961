import SatClient.Proofs.MockRegistration

/-!
# What a call to the mock leaves alone

A call with a handle changes the instance of the handle and the list of faults. Of the tables of all
instances it adds to none; a table that it makes describes nothing.

* `Mock.offers`: the options that an instance describes
* `Mock.Touches`: only one instance has changed; `Mock.respondInstance_touches`
* `Mock.Reached`: what a call may have changed; **`Mock.respond_reached`**
* `Mock.Orderly`: each instance that has been made has one handle; `Mock.Orderly.reached`
-/

namespace SatClient

variable {α β : Type}

theorem Dialogue.Ends.and {P Q : α → Prop} {d : Dialogue α} (h : d.Ends P) (h' : d.Ends Q) :
    d.Ends fun a => P a ∧ Q a := by
  induction d with
  | done a => exact ⟨h, h'⟩
  | poll hook next ih => exact fun answer => ih answer (h answer) (h' answer)
  | offer hook memory next ih => exact ih h h'
  | unregistered slot next ih => exact ih h h'

namespace Mock

/-! ## Tables -/

/-- The options that an instance describes, if it describes any. -/
def offers (id : Nat) (m : Mock) : Option OptionTable :=
  ((m.instanceOf id).table.map fun t => ⟨t, m.tables[t]?.getD []⟩).filter fun t => !t.described.isEmpty

/-- Tables have been added that describe nothing. -/
def Extends (tables tables' : List (List Description)) : Prop :=
  ∃ n, tables' = tables ++ List.replicate n [.last]

theorem Extends.getElem? {tables tables' : List (List Description)} (h : Extends tables tables') (t : Nat) :
    tables'[t]? = tables[t]? ∨ tables[t]? = none ∧ tables'[t]? = some [.last] := by
  obtain ⟨n, rfl⟩ := h
  by_cases ht : t < tables.length
  · exact .inl (List.getElem?_append_left ht)
  · have hle : tables.length ≤ t := Nat.le_of_not_lt ht
    rw [List.getElem?_append_right hle, List.getElem?_replicate, List.getElem?_eq_none hle]
    split_ifs
    · exact .inr ⟨rfl, rfl⟩
    · exact .inl rfl

/-- A table that describes nothing has no names. -/
theorem nameAt_of_extends {m m' : Mock} (h : Extends m.tables m'.tables) : m'.nameAt = m.nameAt := by
  funext d
  cases d with
  | none => rfl
  | some d =>
    obtain ⟨t, p⟩ := d
    simp only [nameAt, Option.bind_some]
    rcases h.getElem? t with ht | ⟨ht, ht'⟩
    · rw [ht]
    · rw [ht, ht']
      cases p with
      | zero => simp [Description.last, Text.ofTerminated, Text.lossy]
      | succ p => rfl

theorem offers_of_extends {m m' : Mock} {id : Nat} (h : Extends m.tables m'.tables)
    (hi : (m'.instanceOf id).table = (m.instanceOf id).table) : m'.offers id = m.offers id := by
  unfold offers
  rw [hi]
  cases (m.instanceOf id).table with
  | none => rfl
  | some t =>
    rcases h.getElem? t with ht | ⟨ht, ht'⟩
    · rw [Option.map_some, Option.map_some, ht]
    · rw [Option.map_some, Option.map_some, ht, ht']
      rfl

/-- The instance that is expected has been made, and has the next handle. -/
def making (id : Nat) (m : Mock) : Mock :=
  let m := ({ m with pending := none } : Mock).change id fun i => { i with initialised := true }
  { m with handles := m.handles ++ [id] }

theorem making_instanceAt (m : Mock) (id : Nat) : (m.making id).instanceAt (m.handles ++ [id]).length = some id := by
  rw [List.length_append]
  exact List.getElem?_concat_length

/-! ## One instance -/

/-- Only the instance `id` has changed, and tables have been added that describe nothing. -/
structure Touches (id : Nat) (m m' : Mock) : Prop where
  handles : m'.handles = m.handles
  pending : m'.pending = m.pending
  signature : m'.signature = m.signature
  others : ∀ j, j ≠ id → m'.instances.get? j = m.instances.get? j
  made : (m'.instanceOf id).initialised = (m.instanceOf id).initialised
  keys : m.instances.keys.Nodup → m'.instances.keys.Nodup
  tables : Extends m.tables m'.tables

namespace Touches

variable {id : Nat} {m m' m'' : Mock}

theorem refl (id : Nat) (m : Mock) : Touches id m m :=
  ⟨rfl, rfl, rfl, fun _ _ => rfl, rfl, fun h => h, 0, (List.append_nil _).symm⟩

theorem trans (h : Touches id m m') (h' : Touches id m' m'') : Touches id m m'' := by
  obtain ⟨n, hn⟩ := h.tables
  obtain ⟨n', hn'⟩ := h'.tables
  refine ⟨h'.handles.trans h.handles, h'.pending.trans h.pending, h'.signature.trans h.signature,
    fun j hj => (h'.others j hj).trans (h.others j hj), h'.made.trans h.made,
    fun hk => h'.keys (h.keys hk), n + n', ?_⟩
  rw [hn', hn, List.append_assoc, List.replicate_append_replicate]

theorem fault (f : Fault) (m : Mock) : Touches id m (m.fault f) :=
  ⟨rfl, rfl, rfl, fun _ _ => rfl, rfl, fun h => h, 0, (List.append_nil _).symm⟩

theorem change (f : Instance → Instance) (m : Mock) (hf : ∀ i, (f i).initialised = i.initialised) :
    Touches id m (m.change id f) := by
  refine ⟨rfl, rfl, rfl, fun j hj => Keyed.get?_set_of_ne _ _ hj.symm, ?_,
    fun hk => Keyed.nodup_keys_set hk _ _, 0, (List.append_nil _).symm⟩
  rw [instanceOf_change, if_pos rfl, hf]

theorem addTable (m : Mock) : Touches id m (m.addTable id []) := by
  have ht : Touches id m { m with tables := m.tables ++ [[] ++ [.last]] } :=
    ⟨rfl, rfl, rfl, fun _ _ => rfl, rfl, fun h => h, 1, rfl⟩
  unfold Mock.addTable
  exact ht.trans (change _ _ fun _ => rfl)

theorem instanceOf (h : Touches id m m') {j : Nat} (hj : j ≠ id) : m'.instanceOf j = m.instanceOf j := by
  unfold Mock.instanceOf
  rw [h.others j hj]

end Touches

/-- An answer that changes one instance at most. -/
abbrev Within (id : Nat) (m : Mock) (r : Reply × Mock) : Prop := Touches id m r.2

theorem within_change {id : Nat} (reply : Reply) (f : Instance → Instance) (m : Mock)
    (hf : ∀ i, (f i).initialised = i.initialised) : Within id m (reply, m.change id f) := .change f m hf

theorem orRefuse_touches {id : Nat} {m : Mock} {x : Except Fault (Reply × Mock)}
    (hx : ∀ r, x = .ok r → Within id m r) : Within id m (m.orRefuse x) := by
  cases x with
  | error f => exact .fault f m
  | ok r => exact hx r rfl

theorem take_touches {e : EntryPoint} {id : Nat} {m m' : Mock} {x : Expected}
    (h : m.take e id = .ok (x, m')) : Touches id m m' := by
  obtain ⟨i, -, h⟩ := bind_ok h
  split at h
  · cases h
  · split_ifs at h
    cases h
    exact .change _ _ fun _ => rfl

theorem respondTaken_touches (id : Nat) (c : Call) (e : Expected) (m : Mock) :
    (respondTaken id c e m).Ends (Within id m) := by
  unfold respondTaken
  split
  · refine orRefuse_touches fun r hr => ?_
    obtain ⟨actual, -, hr⟩ := bind_ok hr
    obtain ⟨-, -, hr⟩ := bind_ok hr
    obtain ⟨-, -, hr⟩ := bind_ok hr
    cases hr
    exact .refl id m
  · split
    · exact Touches.fault _ m
    · refine perform_ends (fun outcome => orRefuse_touches fun r hr => ?_) _
      obtain ⟨-, -, hr⟩ := bind_ok hr
      cases hr
      exact .refl id m
  · refine orRefuse_touches fun r hr => ?_
    obtain ⟨-, -, hr⟩ := bind_ok hr
    cases hr
    exact .refl id m
  · refine orRefuse_touches fun r hr => ?_
    obtain ⟨-, -, hr⟩ := bind_ok hr
    cases hr
    exact .refl id m
  · show Touches id m _
    split_ifs
    · exact .refl id m
    · exact .addTable m
  · refine orRefuse_touches fun r hr => ?_
    obtain ⟨-, -, hr⟩ := bind_ok hr
    obtain ⟨-, -, hr⟩ := bind_ok hr
    obtain ⟨-, -, hr⟩ := bind_ok hr
    cases hr
    exact .refl id m
  · refine orRefuse_touches fun r hr => ?_
    obtain ⟨left, -, hr⟩ := bind_ok hr
    cases hr
    exact within_change _ _ _ fun _ => rfl
  · refine orRefuse_touches fun r hr => ?_
    obtain ⟨-, -, hr⟩ := bind_ok hr
    obtain ⟨left, -, hr⟩ := bind_ok hr
    cases hr
    exact within_change _ _ _ fun _ => rfl
  · exact Touches.fault _ m

/-- A call with the handle of an instance changes no other. -/
theorem respondInstance_touches (id : Nat) (c : Call) (m : Mock) :
    (respondInstance id c m).Ends (Within id m) := by
  unfold respondInstance
  split
  · show Touches id m (m.respondRelease id).2
    unfold respondRelease
    split
    · exact .fault _ m
    · exact .fault _ m
    · split_ifs
      · exact within_change _ _ _ fun _ => rfl
      · exact .fault _ m
  · split
    · exact Touches.fault _ m
    · rename_i e m' htake
      exact (respondTaken_touches id _ e m').mono fun r hr => (take_touches htake).trans hr

/-- A call with a handle other than null. -/
theorem respond_handle {c : Call} {h : Nat} (hc : c.handle? = some (h + 1)) (onThread : Bool) (m : Mock) :
    m.respond onThread c = match m.handles[h]? with
      | some id => m.respondInstance id c
      | none => .done ({ code := .unexplained }, m) := by
  cases c <;> cases hc <;> rfl

/-- What a call may have changed. -/
inductive Reached (m : Mock) (c : Call) : Mock → Prop
  | faulted (faults : List Fault) : Reached m c { m with faults }
  | touched {h : Handle} {id : Nat} {m' : Mock} (hc : c.handle? = some h) (hi : m.instanceAt h = some id)
      (ht : Touches id m m') : Reached m c m'
  | failed (hc : c = .init) : Reached m c { m with pending := none }
  | made {id : Nat} {code : Code} (hc : c = .init) (hp : m.pending = some ⟨some id, code⟩) :
      Reached m c (m.making id)

/-- **A call changes the instance of its handle, or makes one.** -/
theorem respond_reached (onThread : Bool) (c : Call) (m : Mock) :
    (m.respond onThread c).Ends fun r => m.Reached c r.2 := by
  have hsame {c : Call} : m.Reached c m := .faulted m.faults
  have hfault {c : Call} (f : Fault) : m.Reached c (m.refuse f).2 := .faulted _
  unfold respond
  split
  · show m.Reached .init _
    split_ifs
    · unfold respondInit
      split
      · exact hfault _
      · exact .failed rfl
      · rename_i hp
        exact .made rfl hp
    · exact hsame
  · show m.Reached .signature _
    split_ifs
    · unfold respondSignature
      split
      · exact hfault _
      · exact hsame
    · exact hsame
  · show m.Reached _ _
    split_ifs
    · exact hfault _
    · exact hsame
  · show m.Reached _ _
    split_ifs
    · exact hfault _
    · exact hsame
  · rename_i h _ _ hc
    split
    · rename_i id hi
      exact (respondInstance_touches id _ m).mono fun _ ht => .touched (h := h + 1) hc hi ht
    · exact hsame

/-- A handle is of the instance that it was of, or of one that is made. -/
theorem Reached.instanceAt {m m' : Mock} {c : Call} (hr : m.Reached c m') {h : Handle} {id : Nat}
    (hi : m'.instanceAt h = some id) :
    m.instanceAt h = some id ∨ c = .init ∧ ∃ code, m.pending = some ⟨some id, code⟩ := by
  cases hr with
  | faulted faults => exact .inl hi
  | failed hc => exact .inl hi
  | touched hc hi' ht => exact .inl (instanceAt_of_handles ht.handles ▸ hi)
  | @made j code hc hp =>
    cases h with
    | zero => cases hi
    | succ h =>
      have hi : (m.handles ++ [j])[h]? = some id := hi
      by_cases hlt : h < m.handles.length
      · rw [List.getElem?_append_left hlt] at hi
        exact .inl hi
      · rw [List.getElem?_append_right (Nat.le_of_not_lt hlt)] at hi
        obtain rfl : j = id := List.mem_singleton.mp (List.mem_of_getElem? hi) |>.symm
        exact .inr ⟨hc, code, hp⟩

/-! ## Instances and handles -/

/-- Each instance that has been made has one handle. One that is yet to be made has nothing
registered. -/
structure Orderly (m : Mock) : Prop where
  keys : m.instances.keys.Nodup
  handles : m.handles.Nodup
  made : ∀ id, id ∈ m.handles ↔ (m.instanceOf id).initialised = true
  registered : ∀ id ∉ m.handles, ∀ slot, m.registration slot id = none
  pending : ∀ p id, m.pending = some p → p.instance? = some id → id ∉ m.handles

theorem orderly_empty : ({} : Mock).Orderly :=
  ⟨List.nodup_nil, List.nodup_nil, fun _ => ⟨nofun, nofun⟩, fun _ _ slot => by cases slot <;> rfl, nofun⟩

namespace Orderly

variable {m m' : Mock}

/-- No instance is made, and nothing is registered. -/
theorem of_alike (h : m.Orderly) (ha : m.Alike m') (hk : m'.instances.keys.Nodup)
    (hi : ∀ id, (m'.instanceOf id).initialised = (m.instanceOf id).initialised)
    (hp : ∀ p id, m'.pending = some p → p.instance? = some id → id ∉ m.handles) : m'.Orderly where
  keys := hk
  handles := ha.handles ▸ h.handles
  made id := by rw [ha.handles, hi, h.made]
  registered id hid slot := (ha.registration slot id).trans (h.registered id (ha.handles ▸ hid) slot)
  pending p id hm hid := ha.handles ▸ hp p id hm hid

theorem touches {id : Nat} (h : m.Orderly) (hid : id ∈ m.handles) (ht : Touches id m m') : m'.Orderly where
  keys := ht.keys h.keys
  handles := ht.handles ▸ h.handles
  made j := by
    rw [ht.handles, h.made]
    by_cases he : j = id
    · rw [he, ht.made]
    · rw [ht.instanceOf he]
  registered j hj slot := by
    rw [ht.handles] at hj
    have he : j ≠ id := fun he => hj (he ▸ hid)
    rw [registration, ht.instanceOf he]
    exact h.registered j hj slot
  pending p j hp hj := by
    rw [ht.handles]
    exact h.pending p j (ht.pending ▸ hp) hj

theorem making {id : Nat} {code : Code} (h : m.Orderly) (hp : m.pending = some ⟨some id, code⟩) :
    (m.making id).Orderly := by
  have hid : id ∉ m.handles := h.pending _ id hp rfl
  have hof (j : Nat) : (m.making id).instanceOf j =
      if id = j then { m.instanceOf j with initialised := true } else m.instanceOf j :=
    instanceOf_change id j (fun i => { i with initialised := true }) { m with pending := none }
  refine ⟨Keyed.nodup_keys_set h.keys _ _, ?_, fun j => ?_, fun j hj slot => ?_, nofun⟩
  · show (m.handles ++ [id]).Nodup
    exact List.nodup_append.mpr ⟨h.handles, by simp, fun a ha b hb he => hid (by
      rw [← List.mem_singleton.mp hb, ← he]
      exact ha)⟩
  · show j ∈ m.handles ++ [id] ↔ _
    rw [hof, List.mem_append, List.mem_singleton, h.made]
    split_ifs with he
    · simp [he]
    · simp [Ne.symm he]
  · have hne : id ≠ j := fun he => hj (List.mem_append_right _ (List.mem_singleton.mpr he.symm))
    rw [registration, hof, if_neg hne]
    exact h.registered j (fun hm => hj (List.mem_append_left _ hm)) slot

/-- An instance with a handle has been made. -/
theorem mem_handles {h : Handle} {id : Nat} (hi : m.instanceAt h = some id) : id ∈ m.handles := by
  cases h with
  | zero => cases hi
  | succ h => exact List.mem_of_getElem? hi

/-- What a call leaves is in order. -/
theorem reached {c : Call} (h : m.Orderly) (hr : m.Reached c m') : m'.Orderly := by
  cases hr with
  | faulted faults => exact ⟨h.keys, h.handles, h.made, h.registered, h.pending⟩
  | touched hc hi ht => exact h.touches (mem_handles hi) ht
  | failed hc => exact ⟨h.keys, h.handles, h.made, h.registered, nofun⟩
  | made hc hp => exact h.making hp

/-- What the mock is told leaves it in order. -/
theorem told (h : m.Orderly) (ht : m.Told m') : m'.Orderly := by
  refine h.of_alike ht.alike (ht.keys h.keys) ht.made fun p id hp hid hmem => ?_
  rcases ht.pending p id hp hid with hp | hi
  · exact h.pending p id hp hid hmem
  · rw [(h.made id).mp hmem] at hi
    cases hi

/-- Two handles are of two instances. -/
theorem instanceAt_inj (h : m.Orderly) {a b : Handle} {id : Nat} (ha : m.instanceAt a = some id)
    (hb : m.instanceAt b = some id) : a = b := by
  cases a with
  | zero => cases ha
  | succ a =>
    cases b with
    | zero => cases hb
    | succ b =>
      obtain ⟨hlt, -⟩ := List.getElem?_eq_some_iff.mp ha
      have hab : m.handles[a]? = m.handles[b]? := ha.trans hb.symm
      rw [(List.getElem?_inj hlt h.handles).mp hab]

end Orderly

end Mock
end SatClient
