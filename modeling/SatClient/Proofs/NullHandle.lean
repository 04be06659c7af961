import SatClient.Proofs.Lifetime
import SatClient.Scripted

/-!
# The null handle

A solver takes the handle that its init leaves, and passes it on with every call. So a native solver is
given the null handle where an init has succeeded without leaving any, and nowhere else.

* `Session.create_replies`: the one init of a creation, and the answer by what it leaves
* `Passage.LeavesNull`: a turn in which an init has succeeded without leaving a handle
* `Session.leavesNull_iff`: in such a turn a solver is made with the null handle
* `Session.null_through_iff`, `Session.null_release`: the calls through solvers with the null handle
* **`null_handle_iff`**: the creations and the calls with the null handle, over all turns
-/

namespace SatClient

variable {σ : Type} {N : Native σ}

theorem World.call_initReplies (owner : Option Nat) (a : Address) (w : World σ) :
    initReplies (w.call N owner a .init).2.client.trace =
      initReplies w.client.trace ++ [(w.call N owner a .init).1] := by
  obtain ⟨visits, htrace, hvisits⟩ := World.call_events N owner a .init w
  have hnone : initReplies visits = [] := List.filterMap_eq_nil_iff.mpr fun e he => by
    have := hvisits e he
    cases e <;> first | rfl | cases this
  rw [htrace, initReplies_append, initReplies_append, initReplies_append, hnone]
  rfl

/-- In the turn an init has succeeded without leaving a handle. -/
def Passage.LeavesNull (p : Passage σ) : Prop :=
  ∃ reply ∈ initReplies p.events, reply.code.isOk ∧ reply.handle = 0

namespace Session

variable {s : Session σ} {made : List Solver}

/-- A creation makes one init, and takes the handle that is left if the init succeeds. -/
theorem create_replies (hs : s.solvers.keys.Nodup) {l : Library} (hl : s.interface? = some l)
    (key : Int) :
    let p := s.passage N (.client (.create key))
    ∃ reply, initReplies p.events = [reply] ∧
      p.answer = if reply.code.isOk then .done (.created (reply.handle == 0))
        else .stopped (.failure (.callFailed EntryPoint.init.name reply.code)) := by
  intro p
  let called := s.world.call N none (l.symbols .init) .init
  have hcalled : initReplies called.2.client.trace = initReplies s.trace ++ [called.1] :=
    World.call_initReplies none _ s.world
  suffices h : initReplies (s.create N key).2.trace = initReplies s.trace ++ [called.1] ∧
      (s.create N key).1 = if called.1.code.isOk then .done (.created (called.1.handle == 0))
        else .stopped (.failure (.callFailed EntryPoint.init.name called.1.code)) by
    have htrace : (s.create N key).2.trace = s.trace ++ p.events :=
      passage_trace hs (.client (.create key))
    rw [htrace, initReplies_append] at h
    exact ⟨called.1, List.append_cancel_left h.1, h.2⟩
  rw [create, onInterface, hl]
  dsimp only
  rw [create_apply]
  dsimp only
  split_ifs with hok
  · let x := (called.2.note [.notice .created]).newborn l.symbols called.1.handle
    let opened : Session σ :=
      { s with world := (called.2.note [.notice .created]).opened called.1.handle }
    have hopened : initReplies opened.trace = initReplies called.2.client.trace := by
      show initReplies (called.2.client.trace ++ [_] ++ [_]) = _
      rw [initReplies_append, initReplies_append]
      exact (List.append_nil _).trans (List.append_nil _)
    -- a solver that is there already under the key is released, which makes no init
    have hkeep : Stage.Moves N [.release] (opened.stageWith (some x)) (opened.keepSolver N l key x).stage :=
      stage_keepSolver (s := opened) (List.mem_singleton.mpr rfl) hs l key x
    obtain ⟨rest, hrest, -, hallowed⟩ := hkeep.grows
    have hrest : (opened.keepSolver N l key x).trace = opened.trace ++ rest := hrest
    refine ⟨?_, rfl⟩
    show initReplies (opened.keepSolver N l key x).trace = _
    rw [hrest, initReplies_append, initReplies_of_allowed (by decide) hallowed, List.append_nil,
      hopened, hcalled]
  · refine ⟨?_, rfl⟩
    show initReplies (called.2.client.trace ++ [_]) = _
    rw [initReplies_append, hcalled]
    exact List.append_nil _

/-- Where nothing is created no init is made. -/
theorem initReplies_turn (hs : s.solvers.keys.Nodup) {t : Turn σ} {reply : Reply}
    (h : reply ∈ initReplies (s.passage N t).events) :
    ∃ key l, t = .client (.create key) ∧ s.interface? = some l := by
  by_cases hcreate : ∃ key, t = .client (.create key)
  · obtain ⟨key, rfl⟩ := hcreate
    cases hl : s.interface? with
    | some l => exact ⟨key, l, rfl, rfl⟩
    | none =>
      have hnone : (s.turn N (.client (.create key))).2.trace = s.trace ++ [] := by
        rw [List.append_nil]
        show (s.create N key).2.trace = s.trace
        rw [create, onInterface, hl]
      rw [passage_events hnone] at h
      cases h
  · have hno : ∀ key, t ≠ .client (.create key) := fun key ht => hcreate ⟨key, ht⟩
    rw [initReplies_of_allowed (Turn.init_notMem hno) (turn_grows hs t).2] at h
    cases h

/-- An init that succeeds without leaving a handle makes a solver with the null handle. -/
theorem leavesNull_iff (hs : s.solvers.keys.Nodup) {t : Turn σ} (h : (s.passage N t).Begins) :
    (s.passage N t).LeavesNull ↔ ∃ x, (s.passage N t).made? = some x ∧ x.handle = 0 := by
  constructor
  · rintro ⟨reply, hmem, hok, hnull⟩
    obtain ⟨key, l, rfl, hl⟩ := initReplies_turn hs hmem
    obtain ⟨reply', hreplies, hanswer⟩ := create_replies (N := N) hs hl key
    rw [hreplies] at hmem
    rw [← List.mem_singleton.mp hmem, if_pos hok] at hanswer
    have hdone := h.created key rfl
    rw [hanswer] at hdone
    obtain ⟨x, hx⟩ := Option.isSome_iff_exists.mp hdone
    obtain ⟨reply'', hreplies', -, hhandle⟩ := h.handle x hx
    rw [hreplies'] at hreplies
    refine ⟨x, hx, ?_⟩
    rw [← hhandle, List.singleton_inj.mp hreplies, ← List.mem_singleton.mp hmem, hnull]
  · rintro ⟨x, hx, hnull⟩
    obtain ⟨reply, hreplies, hok, hhandle⟩ := h.handle x hx
    exact ⟨reply, hreplies ▸ List.mem_singleton_self reply, hok, hhandle.trans hnull⟩

/-- The answer of a creation that succeeds tells whether a handle was left. -/
theorem created_iff (hs : s.solvers.keys.Nodup) (key : Int) (null : Bool) :
    let p := s.passage N (.client (.create key))
    p.answer = .done (.created null) ↔
      ∃ reply ∈ initReplies p.events, reply.code.isOk ∧ (reply.handle == 0) = null := by
  intro p
  cases hl : s.interface? with
  | none =>
    have hanswer : p.answer = .refused .noInterface := by
      show (s.create N key).1 = _
      rw [create, onInterface, hl]
    rw [hanswer]
    constructor
    · intro h
      cases h
    · rintro ⟨reply, hmem, -⟩
      obtain ⟨-, l, -, hl'⟩ := initReplies_turn hs hmem
      cases hl.symm.trans hl'
  | some l =>
    obtain ⟨reply, hreplies, hanswer⟩ := create_replies (N := N) hs hl key
    rw [hreplies, hanswer]
    simp only [List.mem_singleton, exists_eq_left]
    split_ifs with hok <;> simp [hok]

/-! ## Over all turns -/

section Course

variable {opening : Opening} {native : σ} {turns : List (Turn σ)} {p : Passage σ}

/-- What is known of each turn of a course. -/
theorem begins_of_course (hp : p ∈ (start opening native).2.course N turns) :
    p.before.solvers.keys.Nodup ∧ p = p.before.passage N p.turn ∧ p.Begins := by
  have hstart : (start opening native).2.stage.Sound := sound_start opening native
  obtain ⟨earlier, t, later, -, rfl⟩ := mem_course hp
  have hbefore : ((start opening native).2.after N earlier).stage.Sound := sound_after hstart earlier
  have hserves := serves_after (N := N) hstart (serves_start opening native) earlier
  exact ⟨hbefore.keys, rfl, (serves_turn hbefore hserves t).2⟩

theorem leavesNull_of_course (hp : p ∈ (start opening native).2.course N turns) :
    p.LeavesNull ↔ ∃ x, p.made? = some x ∧ x.handle = 0 := by
  obtain ⟨hkeys, heq, hbegins⟩ := begins_of_course hp
  rw [heq] at hbegins ⊢
  exact leavesNull_iff hkeys hbegins

theorem created_of_course (hp : p ∈ (start opening native).2.course N turns) {key : Int}
    (ht : p.turn = .client (.create key)) :
    (p.answer = .done (.created true) ↔ p.LeavesNull) ∧
      (p.answer = .done (.created false) ↔
        ∃ reply ∈ initReplies p.events, reply.code.isOk ∧ reply.handle ≠ 0) := by
  obtain ⟨hkeys, heq, -⟩ := begins_of_course hp
  have htrue := created_iff (N := N) hkeys key true
  have hfalse := created_iff (N := N) hkeys key false
  rw [ht] at heq
  rw [← heq] at htrue hfalse
  simp only [beq_iff_eq] at htrue
  simp only [beq_eq_false_iff_ne] at hfalse
  exact ⟨htrue, hfalse⟩

/-- When all is over, each solver that was made has served. -/
theorem served_of_course (opening : Opening) (native : σ) (turns : List (Turn σ)) :
    (((start opening native).2.after N turns).finish N).Served
      (((start opening native).2.course N turns).filterMap Passage.made?) := by
  have hstart : (start opening native).2.stage.Sound := sound_start opening native
  let s := (start opening native).2.after N turns
  have hs : s.stage.Sound := sound_after hstart turns
  have hserves := serves_after (N := N) hstart (serves_start opening native) turns
  exact served_of_serves (sound_end hs) ((stage_end s).serves hs (by decide) hserves)

/-- A call through a solver has the null handle if the init of the solver has left none. -/
theorem null_through_iff {i : Nat} {c : Call}
    (hc : (some i, c) ∈ callsMade (((start opening native).2.after N turns).finish N).trace) :
    c.handle? = some 0 ↔ ∃ p ∈ (start opening native).2.course N turns,
      p.LeavesNull ∧ p.made?.map Solver.identity = some i := by
  have hserved := served_of_course (N := N) opening native turns
  obtain ⟨ho, -⟩ | ⟨x, hx, ho, hh⟩ := hserved.calls _ hc
  · cases ho
  · cases ho
    rw [hh]
    constructor
    · intro h0
      obtain ⟨p, hp, hmade⟩ := List.mem_filterMap.mp hx
      exact ⟨p, hp, (leavesNull_of_course hp).mpr ⟨x, hmade, Option.some.inj h0⟩, by rw [hmade]; rfl⟩
    · rintro ⟨p, hp, hleaves, hid⟩
      obtain ⟨y, hy, h0⟩ := (leavesNull_of_course hp).mp hleaves
      rw [hy] at hid
      have hserves := serves_after (N := N) (sound_start opening native) (serves_start opening native) turns
      have hyx : y = x := hserves.eq_of_identity (List.mem_filterMap.mpr ⟨p, hp, hy⟩) hx
        (Option.some.inj hid)
      rw [← hyx, h0]

/-- A solver that was made with the null handle is released with it. -/
theorem null_release (hp : p ∈ (start opening native).2.course N turns) (hleaves : p.LeavesNull) :
    ∃ r ∈ callsMade (((start opening native).2.after N turns).finish N).trace, r.2.handle? = some 0 := by
  have hserved := served_of_course (N := N) opening native turns
  obtain ⟨x, hx, h0⟩ := (leavesNull_of_course hp).mp hleaves
  obtain ⟨ops, hops, -⟩ := hserved.order x (List.mem_filterMap.mpr ⟨p, hp, hx⟩)
  rw [finish_identities, if_neg List.not_mem_nil] at hops
  have hmem : Call.release x.handle ∈ callsOf x.identity
      (((start opening native).2.after N turns).finish N).trace := by
    rw [hops]
    exact List.mem_append_right _ (List.mem_singleton_self _)
  exact ⟨_, mem_callsThrough.mp hmem, congrArg some h0⟩

end Course

end Session

/-- **A native solver is given the null handle just where an init has succeeded without leaving a handle.**
Such an init makes a solver all the same, and what is called through that solver is called with the null
handle, at the latest its release. Through no other solver is that handle passed. -/
theorem null_handle_iff (N : Native σ) (opening : Session.Opening) (native : σ) (turns : List (Turn σ)) :
    let start := (Session.start opening native).2
    let course := start.course N turns
    let calls := callsMade ((start.after N turns).finish N).trace
    (∀ p ∈ course, ∀ key, p.turn = .client (.create key) →
      (p.answer = .done (.created true) ↔ p.LeavesNull) ∧
      (p.answer = .done (.created false) ↔
        ∃ reply ∈ initReplies p.events, reply.code.isOk ∧ reply.handle ≠ 0)) ∧
    (∀ i c, (some i, c) ∈ calls →
      (c.handle? = some 0 ↔ ∃ p ∈ course, p.LeavesNull ∧ p.made?.map Solver.identity = some i)) ∧
    ((∀ r ∈ calls, r.2.handle? ≠ some 0) ↔ ∀ p ∈ course, ¬ p.LeavesNull) := by
  intro start course calls
  refine ⟨fun p hp key ht => Session.created_of_course hp ht, fun i c hc => Session.null_through_iff hc,
    fun h p hp hleaves => ?_, fun h r hr h0 => ?_⟩
  · obtain ⟨r, hr, h0⟩ := Session.null_release hp hleaves
    exact h r hr h0
  · obtain ⟨o, c⟩ := r
    cases o with
    | some i =>
      obtain ⟨p, hp, hleaves, -⟩ := (Session.null_through_iff hr).mp h0
      exact h p hp hleaves
    | none =>
      obtain ⟨-, hc⟩ | ⟨x, -, ho, -⟩ := (Session.served_of_course opening native turns).calls _ hr
      · rw [hc] at h0
        cases h0
      · cases ho

/-- A solver whose init succeeds without leaving a handle. -/
def nameless : Scripted :=
  { script := fun e => if e = .init then [{ leavesNull := true }] else [] }

/-- An init that succeeds without leaving a handle. The creation succeeds, and a clause is added through
the null handle. -/
theorem null_handle_passed :
    let start := (Session.start .known nameless).2
    let made := start.passage Scripted.native (.client (.create 0))
    let clause : Lits := .integers (.sequence ⟨.slice, .listed [1]⟩)
    let added := made.after.passage Scripted.native (.client (.add 0 clause .none))
    made.LeavesNull ∧ made.answer = .done (.created true) ∧
      callsMade added.events = [(some 1, .add 0 (some ⟨.input, [1]⟩) 1 0)] :=
  ⟨⟨_, List.mem_singleton_self _, rfl, rfl⟩, rfl, rfl⟩

end SatClient
