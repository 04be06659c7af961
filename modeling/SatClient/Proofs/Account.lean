import SatClient.Proofs.MockVerdict

/-!
# What the mock keeps account of

As long as each call is made at its time, the mock knows what is still expected, and from then on it
has a fault. So it finds no fault and has nothing outstanding just if all went as expected.

* `Course`, `Mock.Follows`: the calls on an instance, and what is known of the instance
* `Mock.Abides`: what the mock knows, as long as each call is made at its time
* `Mock.Account`: the invariant
* `Mock.Account.told`, `Mock.Account.respond_handle`, …: what the mock is told, and each call, keeps it
* **`Mock.Account.verify_iff`**: the verdict in the end
-/

namespace SatClient

open Mock

/-! ## The course of an instance -/

/-- The calls on an instance, and the operations among them: it is not made yet, or live, or
released. -/
inductive Course : (made released : Bool) → List Made → List Made → Prop
  | unmade : Course false false [] []
  | live {init : Made} {ops : List Made} (hi : init.call = .init)
      (ho : ∀ c ∈ ops, c.isOperation = true) : Course true false (init :: ops) ops
  | ended {cs : List Made} {init : Made} {ops : List Made} {release : Made}
      (h : Life cs init ops release) : Course true true cs ops

namespace Course

variable {made released : Bool} {cs ops : List Made} {c : Made}

theorem live_iff (h : Course made released cs ops) :
    (∀ c ∈ cs, c.call.entry ≠ .release) ↔ released = false := by
  cases h with
  | unmade => exact ⟨fun _ => rfl, fun _ _ => nofun⟩
  | live hi ho => exact ⟨fun _ => rfl, fun _ => Life.not_release hi ho⟩
  | @ended cs init ops release h =>
    refine ⟨fun hno => absurd h.release (hno release ?_), nofun⟩
    rw [h.eq]
    exact List.mem_cons_of_mem _ (List.mem_append_right _ (List.mem_singleton_self _))

theorem operation (h : Course true false cs ops) (hc : c.isOperation = true) :
    Course true false (cs ++ [c]) (ops ++ [c]) := by
  cases h with
  | live hi ho => exact .live hi (List.forall_mem_append.mpr ⟨ho, List.forall_mem_singleton.mpr hc⟩)

theorem release (h : Course true false cs ops) (hc : c.call.entry = .release) :
    Course true true (cs ++ [c]) ops := by
  cases h with
  | live hi ho => exact .ended ⟨rfl, hi, hc, ho⟩

theorem init (h : Course false released cs ops) (hc : c.call = .init) :
    Course true released (cs ++ [c]) ops := by
  cases h with
  | unmade => exact .live hc nofun

theorem of_nil (h : Course made released [] ops) : made = false ∧ ops = [] := by
  cases h with
  | unmade => exact ⟨rfl, rfl⟩
  | ended h => cases h.eq

theorem ended_of (h : Course made released cs ops) (hr : made = true → released = true) :
    cs = [] ∧ ops = [] ∨ ∃ init release, Life cs init ops release := by
  cases h with
  | unmade => exact .inl ⟨rfl, rfl⟩
  | live => exact absurd (hr rfl) nofun
  | ended h => exact .inr ⟨_, _, h⟩

/-- What has been released is released, with the same operations. -/
theorem of_life {init release : Made} {ops' : List Made} (h : Course made released cs ops)
    (hl : Life cs init ops' release) : released = true ∧ ops = ops' := by
  cases h with
  | unmade => cases hl.eq
  | @live init' ops hi ho =>
    obtain ⟨-, rfl⟩ := List.cons.inj hl.eq
    have hop := ho release (List.mem_append_right _ (List.mem_singleton_self _))
    exact absurd hl.release (Made.isOperation_iff.mp hop).2.2
  | ended h =>
    obtain ⟨-, heq⟩ := List.cons.inj (h.eq.symm.trans hl.eq)
    exact ⟨rfl, (List.append_inj' heq rfl).1⟩

end Course

namespace Mock

/-- What is known of an instance follows from what was expected of it and called on it. -/
structure Follows (id : Nat) (ds : List Deed) (i : Instance) : Prop where
  course : Course i.initialised i.released (callsOn id ds) (operationsOn id ds)
  queue : i.expected = (expectedOf id ds).drop (operationsOn id ds).length
  matched : Matched ((expectedOf id ds).take (operationsOn id ds).length) (operationsOn id ds)
  posted : i.released = false → ∀ slot,
    (i.hook slot).isSome = postedAfter ((expectedOf id ds).take (operationsOn id ds).length) slot

namespace Follows

variable {id : Nat} {ds ds' : List Deed} {i : Instance} {m : Mock} {c : Made} {e : Expected}

/-- Nothing was called on the instance, and nothing was expected of it. -/
theorem frame (h : Follows id ds i) (hc : callsOn id ds' = callsOn id ds)
    (he : expectedOf id ds' = expectedOf id ds) : Follows id ds' i := by
  have ho : operationsOn id ds' = operationsOn id ds := congrArg (List.filter Made.isOperation) hc
  refine ⟨?_, ?_, ?_, ?_⟩
  · rw [hc, ho]
    exact h.course
  · rw [he, ho]
    exact h.queue
  · rw [he, ho]
    exact h.matched
  · rw [he, ho]
    exact h.posted

theorem operations_le (h : Follows id ds i) :
    (operationsOn id ds).length ≤ (expectedOf id ds).length := by
  have hlength := h.matched.length
  rw [List.length_take] at hlength
  omega

theorem expect (h : Follows id ds i) (e : Expected) :
    Follows id (ds ++ [.told (.expect id e)]) { i with expected := i.expected ++ [e] } := by
  have hx : expectedOf id (ds ++ [.told (.expect id e)]) = expectedOf id ds ++ [e] := by
    simp [expectedOf, Deed.expected?]
  have ho : operationsOn id (ds ++ [.told (.expect id e)]) = operationsOn id ds :=
    congrArg (List.filter Made.isOperation) (callsOn_told ds id _)
  have hle := h.operations_le
  refine ⟨?_, ?_, ?_, ?_⟩
  · rw [callsOn_told, ho]
    exact h.course
  · rw [hx, ho, List.drop_append_of_le_length hle, ← h.queue]
  · rw [hx, ho, List.take_append_of_le_length hle]
    exact h.matched
  · intro hr slot
    rw [hx, ho, List.take_append_of_le_length hle, ← h.posted hr slot]
    cases slot <;> rfl

/-- An operation is made at its time just if it is the next call that is expected, and fits. -/
theorem due_operation_iff (h : Follows id ds (m.instanceOf id)) (hid : c.id = some id)
    (hc : c.isOperation = true) :
    Due ds c ↔ ∃ e rest, m.Awaits id e rest ∧ e.Fits (m.posted id) c := by
  have hposted (hr : (m.instanceOf id).released = false) :
      m.posted id = postedAfter ((expectedOf id ds).take (operationsOn id ds).length) :=
    funext (h.posted hr)
  rw [due_iff_of_isOperation hc]
  constructor
  · rintro ⟨id', hlive, e, he, hfits⟩
    cases hlive.1.symm.trans hid
    have hr := h.course.live_iff.mp hlive.2
    obtain ⟨hlt, he⟩ := List.getElem?_eq_some_iff.mp he
    refine ⟨e, (expectedOf id ds).drop ((operationsOn id ds).length + 1), ⟨hr, ?_⟩,
      (hposted hr).symm ▸ hfits⟩
    rw [h.queue, List.drop_eq_getElem_cons hlt, he]
  · rintro ⟨e, rest, ha, hfits⟩
    refine ⟨id, ⟨hid, h.course.live_iff.mpr ha.live⟩, e, ?_, hposted ha.live ▸ hfits⟩
    rw [← List.head?_drop, ← h.queue, ha.queue]
    rfl

theorem due_release_iff (h : Follows id ds i) (hid : c.id = some id) (hc : c.call.entry = .release) :
    Due ds c ↔ i.released = false ∧ i.expected = [] := by
  have hdue : Due ds c ↔ ∃ id, OnLive ds c id ∧
      (operationsOn id ds).length = (expectedOf id ds).length := by
    obtain ⟨j, call, name, answers⟩ := c
    cases call <;> first | exact Iff.rfl | cases hc
  have hle := h.operations_le
  rw [hdue, h.queue, List.drop_eq_nil_iff]
  constructor
  · rintro ⟨id', hlive, hlength⟩
    cases hlive.1.symm.trans hid
    exact ⟨h.course.live_iff.mp hlive.2, by omega⟩
  · rintro ⟨hr, hdone⟩
    exact ⟨id, ⟨hid, h.course.live_iff.mpr hr⟩, by omega⟩

/-- An operation has been answered as expected. -/
theorem operate {rest : List Expected} {m' : Mock} (h : Follows id ds (m.instanceOf id))
    (hi : (m.instanceOf id).initialised = true) (hid : c.id = some id) (ha : m.Awaits id e rest)
    (hfits : e.Fits (m.posted id) c) (ht : Took id e rest m m')
    (hi' : (m'.instanceOf id).initialised = (m.instanceOf id).initialised) :
    Follows id (ds ++ [.made c]) (m'.instanceOf id) := by
  have hc := hfits.isOperation
  have hqueue := h.queue.symm.trans ha.queue
  have hlt : (operationsOn id ds).length < (expectedOf id ds).length := by
    by_contra hge
    rw [List.drop_eq_nil_of_le (Nat.le_of_not_lt hge)] at hqueue
    cases hqueue
  rw [List.drop_eq_getElem_cons hlt] at hqueue
  obtain ⟨he, hrest⟩ := List.cons.inj hqueue
  have htake : (expectedOf id ds).take ((operationsOn id ds).length + 1) =
      (expectedOf id ds).take (operationsOn id ds).length ++ [e] := by
    rw [List.take_succ_eq_append_getElem hlt, he]
  have hposted : m.posted id = postedAfter ((expectedOf id ds).take (operationsOn id ds).length) :=
    funext (h.posted ha.live)
  have hcourse := h.course
  rw [hi, ha.live] at hcourse
  have ho := operationsOn_made ds hid hc
  refine ⟨?_, ?_, ?_, ?_⟩
  · rw [hi', ht.released, hi, ha.live, callsOn_made ds hid, ho]
    exact hcourse.operation hc
  · rw [expectedOf_made, ho, List.length_append, List.length_singleton, ht.queue, hrest]
  · rw [expectedOf_made, ho, List.length_append, List.length_singleton, htake]
    exact h.matched.snoc (hposted ▸ hfits)
  · intro _ slot
    rw [expectedOf_made, ho, List.length_append, List.length_singleton, htake, postedAfter_snoc,
      ← hposted, ← ht.posted]
    rfl

theorem release (h : Follows id ds i) (hi : i.initialised = true) (hr : i.released = false)
    (hid : c.id = some id) (hc : c.call.entry = .release) :
    Follows id (ds ++ [.made c]) { i with released := true, terminate := none, exporter := none } := by
  have ho : operationsOn id (ds ++ [.made c]) = operationsOn id ds :=
    operationsOn_made_of_not ds fun hop => (Made.isOperation_iff.mp hop.2).2.2 hc
  have hcourse := h.course
  rw [hi, hr] at hcourse
  refine ⟨?_, ?_, ?_, nofun⟩
  · rw [callsOn_made ds hid, ho]
    show Course i.initialised true _ _
    rw [hi]
    exact hcourse.release hc
  · rw [expectedOf_made, ho]
    exact h.queue
  · rw [expectedOf_made, ho]
    exact h.matched

theorem init (h : Follows id ds i) (hi : i.initialised = false) (hid : c.id = some id)
    (hc : c.call = .init) : Follows id (ds ++ [.made c]) { i with initialised := true } := by
  have ho : operationsOn id (ds ++ [.made c]) = operationsOn id ds :=
    operationsOn_made_of_not ds fun hop => (Made.isOperation_iff.mp hop.2).1 hc
  have hcourse := h.course
  rw [hi] at hcourse
  refine ⟨?_, ?_, ?_, ?_⟩
  · rw [callsOn_made ds hid, ho]
    exact hcourse.init hc
  · rw [expectedOf_made, ho]
    exact h.queue
  · rw [expectedOf_made, ho]
    exact h.matched
  · rw [expectedOf_made, ho]
    intro hr slot
    rw [← h.posted hr slot]
    cases slot <;> rfl

/-- Nothing more is expected of an instance, and it is released if it was made. -/
theorem complete_iff (h : Follows id ds i) :
    i.expected = [] ∧ (i.initialised = true → i.released = true) ↔
      callsOn id ds = [] ∧ expectedOf id ds = [] ∨
        ∃ init ops release, callsOn id ds = init :: (ops ++ [release]) ∧ init.call = .init ∧
          release.call.entry = .release ∧ Matched (expectedOf id ds) ops := by
  rw [h.queue, List.drop_eq_nil_iff]
  constructor
  · rintro ⟨hdone, hr⟩
    have hm := h.matched
    rw [List.take_of_length_le hdone] at hm
    rcases h.course.ended_of hr with ⟨hnil, ho⟩ | ⟨init, release, hl⟩
    · rw [ho] at hdone
      exact .inl ⟨hnil, List.eq_nil_of_length_eq_zero (Nat.le_zero.mp hdone)⟩
    · exact .inr ⟨init, _, release, hl.eq, hl.init, hl.release, hm⟩
  · rintro (⟨hnil, he⟩ | ⟨init, ops, release, heq, hinit, hrelease, hm⟩)
    · have hcourse := h.course
      rw [hnil] at hcourse
      rw [he, hcourse.of_nil.1]
      exact ⟨Nat.zero_le _, nofun⟩
    · obtain ⟨hr, ho⟩ := h.course.of_life ⟨heq, hinit, hrelease, hm.isOperation⟩
      rw [ho]
      exact ⟨Nat.le_of_eq hm.length, fun _ => hr⟩

end Follows

/-! ## What the mock knows -/

/-- What the mock knows, as long as each call is made at its time. -/
structure Abides (ds : List Deed) (m : Mock) : Prop where
  inits : initsExpected ds = initsMade ds + m.pending.toList.length
  signature : m.signature.isSome = ds.any Deed.saysSignature
  follows : ∀ id, Follows id ds (m.instanceOf id)

theorem abides_empty : Abides [] {} :=
  ⟨rfl, rfl, fun _ => ⟨.unmade, rfl, matched_nil, fun _ slot => by cases slot <;> rfl⟩⟩

namespace Abides

variable {ds : List Deed} {m m' : Mock} {c : Made}

/-- What the mock is told. An init may not be expected in the place of another. -/
theorem told (h : Abides ds m) {t : MockStep} {f : Mock → Except Trouble Mock} (ht : t.told? = some f)
    (hf : f m = .ok m') (hp : ∀ code, t = .expectInitFailure code → m.pending = none) :
    Abides (ds ++ [.told t]) m' := by
  have hframe (id : Nat) (he : expectedOf id [.told t] = []) : Follows id (ds ++ [.told t]) (m.instanceOf id) :=
    (h.follows id).frame (callsOn_told ds id t) (by rw [expectedOf_append, he, List.append_nil])
  have hsaid (hs : (Deed.told t).saysSignature = false) :
      m.signature.isSome = (ds ++ [Deed.told t]).any Deed.saysSignature := by
    rw [h.signature, List.any_append, List.any_cons, hs, List.any_nil, Bool.or_self, Bool.or_false]
  have hmade : initsMade (ds ++ [.told t]) = initsMade ds := by
    rw [initsMade_append]
    rfl
  cases t with
  | expectInit id =>
    cases ht
    obtain ⟨hpending, rfl⟩ := expectInit_eq hf
    refine ⟨?_, hsaid rfl, fun j => hframe j rfl⟩
    rw [initsExpected_append, hmade, h.inits, hpending]
    rfl
  | expectInitFailure code =>
    cases ht
    cases hf
    refine ⟨?_, hsaid rfl, fun j => hframe j rfl⟩
    rw [initsExpected_append, hmade, h.inits, hp code rfl]
    rfl
  | expect id e =>
    cases ht
    cases hf
    refine ⟨?_, hsaid rfl, fun j => ?_⟩
    · rw [initsExpected_append, hmade, h.inits]
      rfl
    · rw [expectCall, instanceOf_change]
      split_ifs with hid
      · subst hid
        exact (h.follows id).expect e
      · exact hframe j (by simp [expectedOf, Deed.expected?, hid])
  | setSignature text code =>
    cases ht
    obtain ⟨bytes, rfl⟩ := setSignature_eq hf
    refine ⟨?_, ?_, fun j => hframe j rfl⟩
    · rw [initsExpected_append, hmade, h.inits]
      rfl
    · rw [List.any_append]
      exact (Bool.or_true _).symm
  | setOptions id offers =>
    cases ht
    obtain ⟨rows, rfl⟩ := setOptions_eq hf
    refine ⟨?_, hsaid rfl, fun j => ?_⟩
    · rw [initsExpected_append, hmade, h.inits]
      rfl
    · have hj := hframe j rfl
      show Follows j _ ((Mock.change id (fun i => { i with table := _ }) _).instanceOf j)
      rw [instanceOf_change]
      split_ifs
      · exact ⟨hj.course, hj.queue, hj.matched, fun hr slot =>
          (hj.posted hr slot) ▸ by cases slot <;> rfl⟩
      · exact hj
  | _ => cases ht

/-- A call on an instance leaves what is known of the others. -/
theorem touches {id : Nat} (h : Abides ds m) (ht : Touches id m m') (hid : c.id = some id)
    (hc : c.call ≠ .init) (hf : Follows id (ds ++ [.made c]) (m'.instanceOf id)) :
    Abides (ds ++ [.made c]) m' := by
  refine ⟨?_, ?_, fun j => ?_⟩
  · rw [initsMade_made_of_ne ds hc, initsExpected_made, h.inits, ht.pending]
  · rw [ht.signature, h.signature, saysSignature_made]
  · by_cases hj : j = id
    · exact hj ▸ hf
    · rw [ht.instanceOf hj]
      refine (h.follows j).frame (callsOn_made_of_ne ds fun he => ?_) (expectedOf_made ds j c)
      exact hj (Option.some.inj (he.symm.trans hid))

/-- A call on no instance leaves what is known of all. -/
theorem follows_made (h : Abides ds m) (hid : c.id = none) (id : Nat) :
    Follows id (ds ++ [.made c]) (m.instanceOf id) :=
  (h.follows id).frame (callsOn_made_of_ne ds fun he => nomatch hid.symm.trans he) (expectedOf_made ds id c)

/-- A call for the signature. -/
theorem signatureCall (h : Abides ds m) (hc : c.call = .signature) (hid : c.id = none) :
    Abides (ds ++ [.made c]) m := by
  have hne : c.call ≠ .init := by
    rw [hc]
    nofun
  refine ⟨?_, ?_, h.follows_made hid⟩
  · rw [initsMade_made_of_ne ds hne, initsExpected_made, h.inits]
  · rw [h.signature, saysSignature_made]

theorem inits_made (h : Abides ds m) {p : Pending} (hp : m.pending = some p) (hc : c.call = .init) :
    initsExpected (ds ++ [.made c]) = initsMade (ds ++ [.made c]) := by
  rw [initsMade_made ds hc, initsExpected_made, h.inits, hp]
  rfl

/-- An init that makes nothing. -/
theorem fail (h : Abides ds m) {p : Pending} (hp : m.pending = some p) (hc : c.call = .init)
    (hid : c.id = none) : Abides (ds ++ [.made c]) { m with pending := none } :=
  ⟨h.inits_made hp hc, h.signature.trans (saysSignature_made ds c).symm, h.follows_made hid⟩

theorem making {id : Nat} {p : Pending} (h : Abides ds m) (hp : m.pending = some p) (hc : c.call = .init)
    (hid : c.id = some id) (hi : (m.instanceOf id).initialised = false) :
    Abides (ds ++ [.made c]) (m.making id) := by
  have hof (j : Nat) : (m.making id).instanceOf j =
      if id = j then { m.instanceOf j with initialised := true } else m.instanceOf j :=
    instanceOf_change id j (fun i => { i with initialised := true }) { m with pending := none }
  refine ⟨h.inits_made hp hc, h.signature.trans (saysSignature_made ds c).symm, fun j => ?_⟩
  rw [hof]
  split_ifs with hj
  · subst hj
    exact (h.follows id).init hi hid hc
  · refine (h.follows j).frame (callsOn_made_of_ne ds fun he => ?_) (expectedOf_made ds j c)
    exact hj (Option.some.inj (hid.symm.trans he))

end Abides

/-! ## What is outstanding -/

/-- Nothing is outstanding if no init is expected, nor a call or a release of any instance. -/
theorem isOutstanding_iff {m : Mock} (hk : m.instances.keys.Nodup) :
    m.isOutstanding = false ↔ m.pending = none ∧ ∀ id, (m.instanceOf id).expected = [] ∧
      ((m.instanceOf id).initialised = true → (m.instanceOf id).released = true) := by
  have hdone (i : Instance) : (!i.expected.isEmpty || (i.initialised && !i.released)) = false ↔
      i.expected = [] ∧ (i.initialised = true → i.released = true) := by
    cases i.expected <;> cases i.initialised <;> cases i.released <;> simp
  simp only [isOutstanding, Bool.or_eq_false_iff, Option.isSome_eq_false_iff, Option.isNone_iff_eq_none,
    List.any_eq_false, Bool.not_eq_true, hdone]
  refine and_congr_right fun _ => ⟨fun h id => ?_, fun h i hi => ?_⟩
  · unfold instanceOf
    cases hg : m.instances.get? id with
    | none => exact ⟨rfl, nofun⟩
    | some i => exact h i (Keyed.mem_values_of_get? hg)
  · obtain ⟨id, hg⟩ := Keyed.exists_get?_of_mem_values hk hi
    have hi := h id
    rw [instanceOf, hg] at hi
    exact hi

/-! ## The account -/

/-- The mock keeps account of what was told and called: it has a fault just if some call was not made
at its time, and otherwise knows what is still to come. -/
structure Account (ds : List Deed) (m : Mock) : Prop where
  orderly : m.Orderly
  verdict : m.faults = [] ↔ InOrder ds
  abides : InOrder ds → Abides ds m
  attributed : Attributed ds
  /-- An init that is expected to make nothing is expected to fail. -/
  failing : ∀ p, m.pending = some p → p.instance? = none → p.returns.isOk = false

theorem account_empty : Account [] {} :=
  ⟨orderly_empty, ⟨fun _ => .nil, fun _ => rfl⟩, fun _ => abides_empty, fun _ => nofun, nofun⟩

namespace Account

variable {ds : List Deed} {m m' : Mock} {c : Made}

/-- An init that is to make nothing may not be expected in the place of another, and is to fail. -/
theorem told (h : Account ds m) {t : MockStep} {f : Mock → Except Trouble Mock} (ht : t.told? = some f)
    (hf : f m = .ok m')
    (hp : ∀ code, t = .expectInitFailure code → m.pending = none ∧ code.isOk = false) :
    Account (ds ++ [.told t]) m' := by
  have htold := told_of_step ht hf
  refine ⟨h.orderly.told htold, ?_, fun hin => ?_, fun c hc => ?_, fun p hpending hnone => ?_⟩
  · rw [htold.faults, InOrder.told_iff, h.verdict]
  · exact (h.abides (InOrder.told_iff.mp hin)).told ht hf fun code hcode => (hp code hcode).1
  · rcases List.mem_append.mp hc with hc | hc
    · exact h.attributed c hc
    · cases List.mem_singleton.mp hc
  · cases t with
    | expectInit id =>
      cases ht
      obtain ⟨-, rfl⟩ := expectInit_eq hf
      cases hpending
      cases hnone
    | expectInitFailure code =>
      cases ht
      cases hf
      cases hpending
      exact (hp code rfl).2
    | expect id e =>
      cases ht
      cases hf
      exact h.failing p hpending hnone
    | setSignature text code =>
      cases ht
      obtain ⟨bytes, rfl⟩ := setSignature_eq hf
      exact h.failing p hpending hnone
    | setOptions id offers =>
      cases ht
      obtain ⟨rows, rfl⟩ := setOptions_eq hf
      exact h.failing p hpending hnone
    | _ => cases ht

/-- A call: it passes just if it is made at its time, and otherwise a fault is noted. -/
theorem made (h : Account ds m) {fits : Prop} (ho : m'.Orderly)
    (hj : fits ∧ m'.faults = m.faults ∨ ¬ fits ∧ ∃ f, m'.faults = m.faults ++ [f])
    (hdue : Abides ds m → (Due ds c ↔ fits))
    (habides : Abides ds m → fits → Abides (ds ++ [.made c]) m')
    (hid : c.call ≠ .init → c.call ≠ .signature → ∃ id, c.id = some id)
    (hp : ∀ p, m'.pending = some p → m.pending = some p) : Account (ds ++ [.made c]) m' := by
  refine ⟨ho, ?_, fun hin => ?_, fun c' hc' => ?_, fun p hpending => h.failing p (hp p hpending)⟩
  · rw [InOrder.made_iff]
    rcases hj with ⟨hfits, hf⟩ | ⟨hnot, f, hf⟩
    · rw [hf, h.verdict]
      exact ⟨fun hin => ⟨hin, (hdue (h.abides hin)).mpr hfits⟩, And.left⟩
    · rw [hf]
      refine ⟨fun hnil => ?_, fun hin => absurd ((hdue (h.abides hin.1)).mp hin.2) hnot⟩
      cases (List.append_eq_nil_iff.mp hnil).2
  · obtain ⟨hin, hcdue⟩ := InOrder.made_iff.mp hin
    exact habides (h.abides hin) ((hdue (h.abides hin)).mp hcdue)
  · rcases List.mem_append.mp hc' with hc' | hc'
    · exact h.attributed c' hc'
    · cases List.mem_singleton.mp hc'
      exact hid

/-- An operation on an instance. -/
theorem operation (h : Account ds m) {c : Call} {id : Nat} (hi : (m.instanceOf id).initialised = true)
    (hid : id ∈ m.handles) (hc : c.entry ≠ .release) (hinit : c ≠ .init) (hs : c ≠ .signature) :
    (m.respondInstance id c).EndsWith fun answers r =>
      Account (ds ++ [.made ⟨some id, c, m.nameAt c.option?, answers⟩]) r.2 ∧ Touches id m r.2 := by
  have htouches := (respondInstance_touches id c m).endsWith
  refine ((respondInstance_operated hi hc).and htouches).mono fun answers r => ?_
  rintro ⟨hop, ht⟩
  refine ⟨h.made (h.orderly.touches hid ht) ?_
    (fun hab => (hab.follows id).due_operation_iff rfl (Made.isOperation_iff.mpr ⟨hinit, hs, hc⟩)) ?_
    (fun _ _ => ⟨id, rfl⟩) (fun p hp => ht.pending.symm.trans hp), ht⟩
  · rcases hop with ⟨ha, hfits, htook⟩ | ⟨hno, f, hf⟩
    · exact .inl ⟨⟨_, _, ha, hfits⟩, htook.faults⟩
    · refine .inr ⟨?_, f, hf⟩
      rintro ⟨e, rest, ha, hfits⟩
      exact hno e rest ha hfits
  · rintro hab ⟨e, rest, ha, hfits⟩
    rcases hop with ⟨ha', hfits', htook⟩ | ⟨hno, f, hf⟩
    · exact hab.touches ht rfl hinit ((hab.follows id).operate hi rfl ha' hfits' htook ht.made)
    · exact absurd hfits (hno e rest ha)

theorem release (h : Account ds m) {id : Nat} {handle : Handle} {name : String} {answers : List Int32}
    (hi : (m.instanceOf id).initialised = true) (hid : id ∈ m.handles) :
    Account (ds ++ [.made ⟨some id, .release handle, name, answers⟩]) (m.respondRelease id).2 ∧
      Touches id m (m.respondRelease id).2 := by
  have ht : Touches id m (m.respondRelease id).2 := respondInstance_touches id (.release handle) m
  refine ⟨h.made (h.orderly.touches hid ht) ?_ (fun hab => (hab.follows id).due_release_iff rfl rfl) ?_
    (fun _ _ => ⟨id, rfl⟩) (fun p hp => ht.pending.symm.trans hp), ht⟩
  · rcases respondRelease_judged hi with ⟨hfits, heq⟩ | ⟨hnot, f, heq⟩
    · exact .inl ⟨hfits, by rw [heq]; rfl⟩
    · exact .inr ⟨hnot, f, by rw [heq]; rfl⟩
  · intro hab hfits
    refine hab.touches ht rfl nofun ?_
    rcases respondRelease_judged hi with ⟨-, heq⟩ | ⟨hnot, -⟩
    · rw [heq, instanceOf_change, if_pos rfl]
      exact (hab.follows id).release hi hfits.1 rfl rfl
    · exact absurd hfits hnot

/-- **Every call with a handle keeps the account.** -/
theorem respond_handle (h : Account ds m) {c : Call} {handle : Handle} {id : Nat}
    (hc : c.handle? = some handle) (hi : m.instanceAt handle = some id) (onThread : Bool) :
    (m.respond onThread c).EndsWith fun answers r =>
      Account (ds ++ [.made ⟨some id, c, m.nameAt c.option?, answers⟩]) r.2 ∧ Touches id m r.2 := by
  cases handle with
  | zero => cases hi
  | succ k =>
    have hid := Orderly.mem_handles hi
    have hmade := (h.orderly.made id).mp hid
    rw [Mock.respond_handle hc, show m.handles[k]? = some id from hi]
    by_cases hr : c.entry = .release
    · cases c <;> cases hr
      exact h.release hmade hid
    · exact h.operation hmade hid hr (by rintro rfl; cases hc) (by rintro rfl; cases hc)

/-- A call for the signature on the thread of the mock. -/
theorem respondSignature (h : Account ds m) (name : String) :
    Account (ds ++ [.made ⟨none, .signature, name, []⟩]) m.respondSignature.2 ∧
      m.respondSignature.1.handle = 0 ∧ m.respondSignature.2.handles = m.handles ∧
      m.respondSignature.2.tables = m.tables := by
  have hdue (hab : Abides ds m) : Due ds ⟨none, .signature, name, []⟩ ↔ m.signature.isSome = true := by
    rw [hab.signature]
    rfl
  have hsame (fs : List Fault) : Orderly { m with faults := fs } := h.orderly.reached (c := .signature) (.faulted fs)
  unfold Mock.respondSignature
  cases hs : m.signature with
  | none =>
    rw [hs] at hdue
    exact ⟨h.made (hsame _) (.inr ⟨nofun, _, rfl⟩) hdue (fun _ hfits => nomatch hfits)
      (fun _ hno => absurd rfl hno) fun _ hp => hp, rfl, rfl, rfl⟩
  | some p =>
    rw [hs] at hdue
    exact ⟨h.made (hsame _) (.inl ⟨rfl, rfl⟩) hdue (fun hab _ => hab.signatureCall rfl rfl)
      (fun _ hno => absurd rfl hno) fun _ hp => hp, rfl, rfl, rfl⟩

/-- An init on the thread of the mock. -/
theorem respondInit (h : Account ds m) (name : String) :
    Account (ds ++ [.made ⟨m.respondInit.2.instanceAt m.respondInit.1.handle, .init, name, []⟩])
      m.respondInit.2 := by
  have hdue (hab : Abides ds m) (id : Option Nat) :
      Due ds ⟨id, .init, name, []⟩ ↔ m.pending.isSome = true := by
    show initsMade ds < initsExpected ds ↔ _
    rw [hab.inits]
    cases m.pending <;> simp
  have hreached := h.orderly.reached (respond_reached true .init m)
  unfold Mock.respond Mock.respondInit at hreached
  unfold Mock.respondInit
  cases hp : m.pending with
  | none =>
    rw [hp] at hdue hreached
    exact h.made hreached (.inr ⟨nofun, _, rfl⟩) (fun hab => hdue hab _) (fun _ hfits => nomatch hfits)
      (fun hno => absurd rfl hno) fun _ hp => hp
  | some p =>
    obtain ⟨id?, code⟩ := p
    rw [hp] at hdue hreached
    cases id? with
    | none =>
      exact h.made hreached (.inl ⟨rfl, rfl⟩) (fun hab => hdue hab _) (fun hab _ => hab.fail hp rfl rfl)
        (fun hno => absurd rfl hno) nofun
    | some id =>
      have hi : (m.instanceOf id).initialised = false := by
        have hno := h.orderly.pending _ id hp rfl
        rw [h.orderly.made id] at hno
        exact Bool.not_eq_true _ ▸ hno
      refine h.made hreached (.inl ⟨rfl, rfl⟩) (fun hab => hdue hab _) (fun hab _ => ?_)
        (fun hno => absurd rfl hno) nofun
      exact hab.making hp rfl (making_instanceAt m id) hi

/-- **The verdict.** The mock finds no fault and has nothing outstanding just if all went as
expected. -/
theorem verify_iff (h : Account ds m) : m.verify = .ok () ↔ Fulfilled ds := by
  have hverify : m.verify = .ok () ↔ m.faults = [] ∧ m.isOutstanding = false := by
    unfold verify
    cases m.faults <;> cases m.isOutstanding <;> simp
  rw [hverify, h.verdict, isOutstanding_iff h.orderly.keys]
  constructor
  · rintro ⟨hin, hp, hdone⟩
    have hab := h.abides hin
    refine ⟨?_, ?_, ?_, ?_, fun id => (hab.follows id).complete_iff.mp (hdone id)⟩
    · rintro before c after rfl hc
      have hdue := hin.due
      rw [Due, hc] at hdue
      exact hdue
    · rw [hab.inits, hp]
      rfl
    · rintro before c after rfl hc
      have hdue := hin.due
      rw [Due, hc] at hdue
      exact hdue
    · rintro before c after id rfl hid hop
      obtain ⟨id', hlive, e, he, -⟩ := (due_iff_of_isOperation hop).mp hin.due
      cases hlive.1.symm.trans hid
      exact (List.getElem?_eq_some_iff.mp he).1
  · intro hf
    have hin := inOrder_of_fulfilled hf h.attributed
    have hab := h.abides hin
    refine ⟨hin, ?_, fun id => (hab.follows id).complete_iff.mpr (hf.matched id)⟩
    have hinits := hab.inits
    rw [hf.answered] at hinits
    cases hp : m.pending with
    | none => rfl
    | some p =>
      rw [hp] at hinits
      simp at hinits

end Account
end Mock
end SatClient
