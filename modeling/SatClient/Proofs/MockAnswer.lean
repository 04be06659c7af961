import SatClient.Mock.Respond
import SatClient.Proofs.Move

/-!
# What the answers of the mock change

A mock instance keeps a registration until another takes its place, it is cleared, or the instance is
released. No answer registers anything but what the call asks for, and only with the instance which
the call is for.

* `Dialogue.Ends`: whatever is answered to it, a dialogue ends in this way
* `Mock.registration`, `Mock.instanceAt`: the state which matters here
* `Mock.Alike`: nothing of it has changed
* `Mock.Answered`: what may have changed; `Mock.respond_ends`: every answer is such
* **`MockHost.call_answered`**: so is every call to the mock
-/

namespace SatClient

variable {σ α β : Type}

/-! ## Ends of dialogues -/

/-- Whatever is answered to it, a dialogue ends with a result as described. -/
def Dialogue.Ends (P : α → Prop) : Dialogue α → Prop
  | done a => P a
  | poll _ next => ∀ answer, (next answer).Ends P
  | offer _ _ next => next.Ends P
  | unregistered _ next => next.Ends P

namespace Dialogue

theorem Ends.mono {P Q : α → Prop} (hPQ : ∀ a, P a → Q a) {d : Dialogue α} (h : d.Ends P) :
    d.Ends Q := by
  induction d with
  | done a => exact hPQ a h
  | poll hook next ih => exact fun answer => ih answer (h answer)
  | offer hook memory next ih => exact ih h
  | unregistered slot next ih => exact ih h

theorem Ends.map {P : β → Prop} {f : α → β} {d : Dialogue α} (h : d.Ends fun a => P (f a)) :
    (d.map f).Ends P := by
  induction d with
  | done a => exact h
  | poll hook next ih => exact fun answer => ih answer (h answer)
  | offer hook memory next ih => exact ih h
  | unregistered slot next ih => exact ih h

theorem Ends.run {P : α → Prop} {d : Dialogue α} (h : d.Ends P) (c : Client) : P (d.run c).1 := by
  induction d generalizing c with
  | done a => exact h
  | poll hook next ih => exact ih _ (h _) _
  | offer hook memory next ih => exact ih h _
  | unregistered slot next ih => exact ih h _

end Dialogue

/-! ## Registrations -/

namespace Mock

def Instance.hook (i : Instance) : Slot → Option Hook
  | .terminate => i.terminate
  | .exporter => i.exporter

/-- What an instance has registered. -/
def registration (slot : Slot) (id : Nat) (m : Mock) : Option Hook := (m.instanceOf id).hook slot

/-- The instance with a handle. -/
def instanceAt (m : Mock) : Handle → Option Nat
  | 0 => none
  | h + 1 => m.handles[h]?

theorem instanceAt_of_handles {m m' : Mock} (h : m'.handles = m.handles) : m'.instanceAt = m.instanceAt := by
  funext handle
  cases handle with
  | zero => rfl
  | succ k => exact congrArg (·[k]?) h

theorem hook_eq (slot : Slot) (id : Nat) (m : Mock) :
    m.hook slot id = (match m.registration slot id with
      | some hook => .ok hook
      | none => .error (.noCallback slot id)) := by
  cases slot <;> rfl

theorem instanceOf_change (id j : Nat) (f : Instance → Instance) (m : Mock) :
    (m.change id f).instanceOf j = if id = j then f (m.instanceOf j) else m.instanceOf j := by
  unfold instanceOf change
  rw [Keyed.get?_set]
  by_cases h : id = j
  · subst h
    simp [instanceOf]
  · simp [h]

/-- Nothing has been registered or cleared, and no instance made. -/
structure Alike (m m' : Mock) : Prop where
  handles : m'.handles = m.handles
  registration : ∀ slot id, m'.registration slot id = m.registration slot id

namespace Alike

variable {m m' m'' : Mock}

theorem refl (m : Mock) : Alike m m := ⟨rfl, fun _ _ => rfl⟩

theorem trans (h : Alike m m') (h' : Alike m' m'') : Alike m m'' :=
  ⟨h'.handles.trans h.handles, fun slot id => (h'.registration slot id).trans (h.registration slot id)⟩

theorem fault (f : Fault) (m : Mock) : Alike m (m.fault f) := ⟨rfl, fun _ _ => rfl⟩

theorem change {id : Nat} {f : Instance → Instance} (hf : ∀ i slot, (f i).hook slot = i.hook slot)
    (m : Mock) : Alike m (m.change id f) := by
  refine ⟨rfl, fun slot j => ?_⟩
  rw [Mock.registration, Mock.registration, instanceOf_change]
  by_cases h : id = j
  · rw [if_pos h, hf]
  · rw [if_neg h]

theorem addTable (id : Nat) (rows : List Description) (m : Mock) : Alike m (m.addTable id rows) := by
  have ht : Alike m { m with tables := m.tables ++ [rows ++ [.last]] } := ⟨rfl, fun _ _ => rfl⟩
  unfold Mock.addTable
  refine ht.trans (.change ?_ _)
  intro i slot
  cases slot <;> rfl

theorem instanceAt (h : Alike m m') (handle : Handle) : m'.instanceAt handle = m.instanceAt handle :=
  congrFun (instanceAt_of_handles h.handles) handle

end Alike

/-! ## Answers -/

/-- What an answer may have changed. -/
structure Answered (m : Mock) (c : Call) (r : Reply × Mock) : Prop where
  instances : ∀ h id, m.instanceAt h = some id → r.2.instanceAt h = some id
  /-- What is registered now was before, or the call has registered it with its instance. -/
  registration : ∀ slot id hook, r.2.registration slot id = some hook →
    m.registration slot id = some hook ∨
      c.registration? = some (some hook.data, some hook.callback) ∧
        ∃ h, c.handle? = some h ∧ m.instanceAt h = some id
  /-- An instance that is released has nothing registered. -/
  released : ∀ h, c = .release h → r.1.code.isOk →
    ∃ id, m.instanceAt h = some id ∧ ∀ slot, r.2.registration slot id = none

namespace Answered

variable {m m' : Mock} {c : Call} {reply : Reply}

theorem of_alike (h : Alike m m') (hr : ∀ h, c = .release h → reply.code.isOk = false) :
    Answered m c (reply, m') := by
  refine ⟨?_, ?_, ?_⟩
  · intro handle id hi
    rw [h.instanceAt]
    exact hi
  · intro slot id hook hh
    rw [h.registration] at hh
    exact .inl hh
  · intro handle hc hok
    rw [hr handle hc] at hok
    cases hok

/-- What comes of an answer to a mock that is like another comes of the answer to that one. -/
theorem before {r : Reply × Mock} (h : Alike m m') (ha : Answered m' c r) : Answered m c r := by
  refine ⟨?_, ?_, ?_⟩
  · intro handle id hi
    exact ha.instances handle id ((h.instanceAt handle).trans hi)
  · intro slot id hook hh
    rcases ha.registration slot id hook hh with hm | ⟨hc, handle, hcall, hi⟩
    · exact .inl ((h.registration slot id).symm.trans hm)
    · exact .inr ⟨hc, handle, hcall, (h.instanceAt handle).symm.trans hi⟩
  · intro handle hc hok
    obtain ⟨id, hi, hn⟩ := ha.released handle hc hok
    exact ⟨id, (h.instanceAt handle).symm.trans hi, hn⟩

theorem refuse (f : Fault) (m : Mock) (c : Call) : Answered m c (m.refuse f) :=
  of_alike (.fault f m) fun _ _ => rfl

theorem orRefuse {x : Except Fault (Reply × Mock)} (hx : ∀ r, x = .ok r → Answered m c r) :
    Answered m c (m.orRefuse x) := by
  cases x with
  | error f => exact refuse f m c
  | ok r => exact hx r rfl

theorem unchanged (hc : ∀ h, c ≠ .release h) : Answered m c (reply, m) :=
  of_alike (.refl m) fun h he => absurd he (hc h)

end Answered

theorem registered_some {e : EntryPoint} {registers : Bool} {returns : Code} {data : Option Nat}
    {callback : Option Callback} {before : Option Hook} {hook : Hook}
    (h : registered e registers returns data callback before = .ok (some hook)) :
    (data = some hook.data ∧ callback = some hook.callback) ∨ before = some hook := by
  unfold registered at h
  split at h
  · have he := Option.some.inj (Except.ok.inj h)
    subst he
    exact .inl ⟨rfl, rfl⟩
  · cases h
  · have he := Except.ok.inj h
    split_ifs at he
    exact .inr he
  · cases h

theorem answered_register {m : Mock} {c : Call} {reply : Reply} {id : Nat} {s : Slot}
    {f : Instance → Instance} {o : Option Hook} (hc : ∀ h, c ≠ .release h)
    (hid : ∃ h, c.handle? = some h ∧ m.instanceAt h = some id)
    (hf : ∀ i slot, (f i).hook slot = if slot = s then o else i.hook slot)
    (ho : ∀ hook, o = some hook →
      c.registration? = some (some hook.data, some hook.callback) ∨ m.registration s id = some hook) :
    Answered m c (reply, m.change id f) := by
  refine ⟨fun handle j hj => hj, ?_, fun h he => absurd he (hc h)⟩
  intro slot j hook hh
  have hh : ((m.change id f).instanceOf j).hook slot = some hook := hh
  rw [instanceOf_change] at hh
  by_cases hj : id = j
  · subst hj
    rw [if_pos rfl, hf] at hh
    by_cases hs : slot = s
    · subst hs
      rw [if_pos rfl] at hh
      exact (ho hook hh).symm.imp_right fun hr => ⟨hr, hid⟩
    · rw [if_neg hs] at hh
      exact .inl hh
  · rw [if_neg hj] at hh
    exact .inl hh

/-! ## Every call -/

theorem bind_ok {x : Except Fault α} {g : α → Except Fault β} {b : β} (h : x >>= g = .ok b) :
    ∃ a, x = .ok a ∧ g a = .ok b := by
  cases x with
  | error f => cases h
  | ok a => exact ⟨a, rfl, h⟩

/-- The calls back of a solve change nothing of the mock. -/
theorem perform_ends {P : α → Prop} {terminate exporter : Option Hook}
    {finish : Except Fault Unit → α} (h : ∀ outcome, P (finish outcome)) (scenes : List Scene) :
    (perform terminate exporter finish scenes).Ends P := by
  induction scenes with
  | nil => exact h _
  | cons scene rest ih =>
    cases scene with
    | poll expect =>
      cases terminate with
      | none => exact h _
      | some hook =>
        intro answer
        dsimp only
        split_ifs
        · exact ih
        · exact h _
    | offer clause =>
      cases exporter with
      | none => exact h _
      | some hook => exact ih

theorem respondTaken_ends (id : Nat) (c : Call) (e : Expected) (m : Mock)
    (hid : ∃ h, c.handle? = some h ∧ m.instanceAt h = some id) :
    (respondTaken id c e m).Ends (Answered m c) := by
  unfold respondTaken
  split
  -- a clause
  · refine .orRefuse fun r hr => ?_
    obtain ⟨actual, -, hr⟩ := bind_ok hr
    obtain ⟨-, -, hr⟩ := bind_ok hr
    obtain ⟨-, -, hr⟩ := bind_ok hr
    cases hr
    exact .unchanged nofun
  -- a solve, which reads the registrations
  · split
    · exact .refuse _ _ _
    · refine perform_ends (fun outcome => .orRefuse fun r hr => ?_) _
      obtain ⟨-, -, hr⟩ := bind_ok hr
      cases hr
      exact .unchanged nofun
  -- the two queries
  · refine .orRefuse fun r hr => ?_
    obtain ⟨-, -, hr⟩ := bind_ok hr
    cases hr
    exact .unchanged nofun
  · refine .orRefuse fun r hr => ?_
    obtain ⟨-, -, hr⟩ := bind_ok hr
    cases hr
    exact .unchanged nofun
  -- the options, of which an empty table may be made
  · refine .of_alike ?_ nofun
    split_ifs
    · exact .refl m
    · exact .addTable id [] m
  · refine .orRefuse fun r hr => ?_
    obtain ⟨-, -, hr⟩ := bind_ok hr
    obtain ⟨-, -, hr⟩ := bind_ok hr
    obtain ⟨-, -, hr⟩ := bind_ok hr
    cases hr
    exact .unchanged nofun
  -- the two registrations
  · refine .orRefuse fun r hr => ?_
    obtain ⟨left, hleft, hr⟩ := bind_ok hr
    cases hr
    refine answered_register (s := .terminate) (o := left) nofun hid ?_ ?_
    · intro i slot
      cases slot <;> rfl
    · rintro hook rfl
      rcases registered_some hleft with ⟨hd, hc⟩ | hb
      · rw [hd, hc]
        exact .inl rfl
      · exact .inr hb
  · refine .orRefuse fun r hr => ?_
    obtain ⟨-, -, hr⟩ := bind_ok hr
    obtain ⟨left, hleft, hr⟩ := bind_ok hr
    cases hr
    refine answered_register (s := .exporter) (o := left) nofun hid ?_ ?_
    · intro i slot
      cases slot <;> rfl
    · rintro hook rfl
      rcases registered_some hleft with ⟨hd, hc⟩ | hb
      · rw [hd, hc]
        exact .inl rfl
      · exact .inr hb
  · exact .refuse _ _ _

theorem take_alike {entry : EntryPoint} {id : Nat} {m m' : Mock} {e : Expected}
    (h : m.take entry id = .ok (e, m')) : Alike m m' := by
  obtain ⟨i, -, h⟩ := bind_ok h
  split at h
  · cases h
  · split_ifs at h
    cases h
    exact .change (fun _ slot => by cases slot <;> rfl) _

theorem respondRelease_answered {id : Nat} {h : Handle} {m : Mock} (hid : m.instanceAt h = some id) :
    Answered m (.release h) (m.respondRelease id) := by
  unfold respondRelease
  split
  · exact .refuse _ _ _
  · exact .refuse _ _ _
  · split_ifs
    · -- all that the instance had registered goes, and nothing else
      have hgone (slot : Slot) (j : Nat) : (m.change id fun i =>
          { i with released := true, terminate := none, exporter := none }).registration slot j =
            if id = j then none else m.registration slot j := by
        rw [registration, instanceOf_change]
        by_cases hj : id = j
        · rw [if_pos hj, if_pos hj]
          cases slot <;> rfl
        · rw [if_neg hj, if_neg hj]
          rfl
      refine ⟨fun _ _ hi => hi, ?_, ?_⟩
      · intro slot j hook hh
        rw [hgone] at hh
        split_ifs at hh
        exact .inl hh
      · rintro handle ⟨⟩ -
        refine ⟨id, hid, fun slot => ?_⟩
        rw [hgone, if_pos rfl]
    · exact .refuse _ _ _

theorem respondInstance_ends (id : Nat) (c : Call) (m : Mock)
    (hid : ∃ h, c.handle? = some h ∧ m.instanceAt h = some id) :
    (respondInstance id c m).Ends (Answered m c) := by
  unfold respondInstance
  split
  · obtain ⟨h, hc, hi⟩ := hid
    cases hc
    exact respondRelease_answered hi
  · split
    · exact .refuse _ _ _
    · rename_i e m' htake
      have ha := take_alike htake
      obtain ⟨h, hc, hi⟩ := hid
      refine (respondTaken_ends id c e m' ⟨h, hc, (ha.instanceAt h).trans hi⟩).mono ?_
      exact fun _ hr => .before ha hr

theorem respondInit_answered (m : Mock) : Answered m .init m.respondInit := by
  unfold respondInit
  split
  · exact .refuse _ _ _
  · exact .of_alike ⟨rfl, fun _ _ => rfl⟩ nofun
  · rename_i id code hp
    -- The instance may be made with what is expected of it, but has nothing registered by that.
    have hp : Alike m { m with pending := none } := ⟨rfl, fun _ _ => rfl⟩
    have ha : Alike m (({ m with pending := none } : Mock).change id fun i =>
        { i with initialised := true }) :=
      hp.trans (.change (fun _ slot => by cases slot <;> rfl) _)
    refine ⟨?_, fun slot j hook hh => .inl ?_, nofun⟩
    · intro handle j hi
      cases handle with
      | zero => cases hi
      | succ k =>
        obtain ⟨hk, -⟩ := List.getElem?_eq_some_iff.mp hi
        show (m.handles ++ [id])[k]? = some j
        rw [List.getElem?_append_left hk]
        exact hi
    · rw [← ha.registration]
      exact hh

theorem respondSignature_answered (m : Mock) : Answered m .signature m.respondSignature := by
  unfold respondSignature
  split
  · exact .refuse _ _ _
  · exact .unchanged nofun

/-- **No answer registers anything but what the call asks for.** -/
theorem respond_ends (onThread : Bool) (c : Call) (m : Mock) :
    (respond onThread c m).Ends (Answered m c) := by
  have hno (c : Call) : Answered m c ({ code := .unexplained }, m) :=
    .of_alike (.refl m) fun _ _ => rfl
  unfold respond
  split
  · show Answered m .init _
    split_ifs
    · exact respondInit_answered m
    · exact hno _
  · show Answered m .signature _
    split_ifs
    · exact respondSignature_answered m
    · exact hno _
  · show Answered m _ _
    split_ifs
    · exact .refuse _ _ _
    · exact hno _
  · show Answered m _ _
    split_ifs
    · exact .refuse _ _ _
    · exact hno _
  · rename_i h _ _ hc
    split
    · rename_i id hi
      exact respondInstance_ends id _ m ⟨h + 1, hc, hi⟩
    · exact hno _

end Mock

/-! ## Calls to the mock -/

/-- What a call may have changed of the mock that there is. -/
def MockHost.Answered (host : MockHost) (c : Call) (r : Reply × MockHost) : Prop :=
  match host.mock with
  | none => r.2.mock = none ∧ r.1.code.isOk = false
  | some m => ∃ m', r.2.mock = some m' ∧ m.Answered c (r.1, m')

theorem MockHost.Answered.of_mock {host : MockHost} {c : Call} {r : Reply × MockHost}
    (h : host.Answered c r) {m' : Mock} (hm' : r.2.mock = some m') :
    ∃ m, host.mock = some m ∧ m.Answered c (r.1, m') := by
  unfold MockHost.Answered at h
  cases hm : host.mock with
  | none =>
    rw [hm] at h
    rw [h.1] at hm'
    cases hm'
  | some m =>
    rw [hm] at h
    obtain ⟨m'', hm'', ha⟩ := h
    cases hm''.symm.trans hm'
    exact ⟨m, rfl, ha⟩

theorem MockHost.respond_ends (host : MockHost) (c : Call) :
    (host.respond c).Ends (host.Answered c) := by
  unfold MockHost.respond MockHost.Answered
  cases hm : host.mock with
  | none => exact ⟨hm, rfl⟩
  | some m =>
    exact Dialogue.Ends.map ((m.respond_ends host.onThread c).mono fun r hr => ⟨r.2, rfl, hr⟩)

/-- **What a call changes of the mock.** -/
theorem MockHost.call_answered (owner : Option Nat) (a : Address) (c : Call) (w : World MockHost) :
    w.native.Answered c
      ((w.call native owner a c).1, (w.call native owner a c).2.native) :=
  (w.native.respond_ends c).run _

end SatClient
