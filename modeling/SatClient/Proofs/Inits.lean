import SatClient.Proofs.MockCourse
import SatClient.Proofs.NullHandle

/-!
# Inits that are expected

The mock expects one init at a time. An init that is expected waits until an init is called, which is then
answered with its instance or its code. While one waits, none that makes an instance can be expected; but
one that fails can, and takes its place without a word.

* `MockSession.Inits`, `MockSession.inits`: what is seen of inits since the mock was made
* `MockSession.answers_inits`: what the mock answers to an init, and what it expects afterwards
* `MockSession.Inits.Balanced`, `MockSession.balanced_step`: the inits that were expected are those that
  were answered, the one that waits and those which were replaced
* `MockSession.replaced_failing`, `MockSession.replaced_of_ne`: what takes the place of an init
* **`MockSession.inits_in_order_iff`**: the inits that were expected are answered in order, each once, just
  if none was replaced
-/

namespace SatClient

variable {σ : Type} {N : Native σ}

/-! ## Replies to inits -/

def Exchange.initReply? (x : Exchange) : Option Reply := if x.call = .init then some x.reply else none

theorem call_ne_init {x : Exchange} (h : x.initReply? = none) : x.call ≠ .init := fun hc => by
  rw [Exchange.initReply?, if_pos hc] at h
  cases h

theorem initReplies_eq (trace : List Event) :
    initReplies trace = (exchanges trace).filterMap Exchange.initReply? := by
  rw [initReplies, exchanges, List.filterMap_filterMap]
  refine List.filterMap_congr fun e _ => ?_
  cases e with
  | returned owner c reply => cases c <;> rfl
  | _ => rfl

/-- In a turn no more than one init is made. -/
theorem Session.initReplies_length_le {s : Session σ} (hs : s.solvers.keys.Nodup) (t : Turn σ) :
    initReplies (s.passage N t).events = [] ∨ ∃ reply, initReplies (s.passage N t).events = [reply] := by
  cases h : initReplies (s.passage N t).events with
  | nil => exact .inl rfl
  | cons reply rest =>
    obtain ⟨key, l, rfl, hl⟩ := initReplies_turn hs (h ▸ List.mem_cons_self)
    obtain ⟨reply', hreply, -⟩ := create_replies (N := N) hs hl key
    rw [← h]
    exact .inr ⟨reply', hreply⟩

namespace MockSession

open Mock (Pending)

variable {s : Session MockHost} {t : MockStep} {m m' : Mock}

/-! ## What is seen of inits -/

/-- What has been seen of inits: those that were expected, those that were answered while one was expected,
and those in whose place another was expected. -/
structure Inits where
  expected : List Pending := []
  answered : List Pending := []
  replaced : List Pending := []

/-- Whether one of the inits that were expected has neither been answered nor replaced. -/
def Inits.isOpen (n : Inits) : Bool := n.answered.length + n.replaced.length < n.expected.length

/-- One more init is expected; if another still waits, it is replaced. -/
def Inits.expect (p : Pending) (n : Inits) : Inits where
  expected := n.expected ++ [p]
  answered := n.answered
  replaced := n.replaced ++ if n.isOpen then n.expected.getLast?.toList else []

/-- Inits are made, and give instances and codes. -/
def Inits.answer (given : List Pending) (n : Inits) : Inits :=
  { n with answered := n.answered ++ if n.isOpen then given else [] }

/-- The init that a step expects. -/
def initOf? : MockStep → Option Pending
  | .expectInit id => some ⟨some id, .ok⟩
  | .expectInitFailure code => some ⟨none, code⟩
  | _ => none

/-- What the inits give that are made in a step on the thread of the mock: an instance, if they leave the
handle of one, and a code. -/
def initsGiven (t : MockStep) (s : Session MockHost) : List Pending :=
  match t with
  | .client _ true => (initReplies ((step t s).2.trace.drop s.trace.length)).map fun reply =>
    ⟨(host (step t s).2).mock.bind fun m => m.instanceAt reply.handle, reply.code⟩
  | _ => []

/-- What is seen of inits in a step. One that panics expects none. -/
def seeInits (t : MockStep) (s : Session MockHost) (n : Inits) : Inits :=
  match initOf? t with
  | some p => if (step t s).1.isDone then n.expect p else n
  | none => n.answer (initsGiven t s)

/-- What has been seen of inits in steps, since the mock was made. -/
def inits (steps : List MockStep) (s : Session MockHost) : Inits := notes seeInits {} steps s {}

/-! ## What the mock answers -/

/-- What is there of inits in the mock, and the handles that it has given. -/
def SameInits (m m' : Mock) : Prop := m'.pending = m.pending ∧ m'.handles = m.handles

/-- Only an init on the thread of the mock has to do with inits. -/
theorem respond_sameInits {c : Call} {onThread : Bool} (hc : c = .init → onThread = false) (m : Mock) :
    (m.respond onThread c).Ends fun r => SameInits m r.2 := by
  by_cases hinit : c = .init
  · rw [hinit, hc hinit]
    exact ⟨rfl, rfl⟩
  · refine (Mock.respond_reached onThread c m).mono fun r hr => ?_
    generalize r.2 = m' at hr
    cases hr with
    | faulted faults => exact ⟨rfl, rfl⟩
    | failed h => exact absurd h hinit
    | touched _ _ ht => exact ⟨ht.pending, ht.handles⟩
    | made h _ => exact absurd h hinit

theorem answers_sameInits {host' : MockHost} {b : Bool} {xs : List Exchange}
    (h : MockHost.native.Answers ⟨some m, b⟩ xs host') (hx : ∀ x ∈ xs, x.call = .init → b = false) :
    ∃ m', host' = ⟨some m', b⟩ ∧ SameInits m m' := by
  refine answers_keep (P := SameInits m) h ⟨rfl, rfl⟩ fun x hmem k hk => ?_
  exact (respond_sameInits (hx x hmem) k).mono fun r hr => ⟨hr.1.trans hk.1, hr.2.trans hk.2⟩

/-- An init on the thread of the mock is answered as expected, and none is expected afterwards. -/
theorem respondInit_given (m : Mock) : m.respondInit.2.pending = none ∧ ∀ p, m.pending = some p →
    m.respondInit.2.instanceAt m.respondInit.1.handle = p.instance? ∧ m.respondInit.1.code = p.returns := by
  unfold Mock.respondInit
  cases hp : m.pending with
  | none => exact ⟨hp, nofun⟩
  | some p =>
    obtain ⟨id?, code⟩ := p
    cases id? with
    | none =>
      refine ⟨rfl, ?_⟩
      rintro p ⟨⟩
      exact ⟨rfl, rfl⟩
    | some id =>
      refine ⟨rfl, ?_⟩
      rintro p ⟨⟩
      exact ⟨Mock.making_instanceAt m id, rfl⟩

/-- If one init is among calls that are made on the thread of the mock, it is answered as expected. -/
theorem answers_inits {host' : MockHost} {xs : List Exchange} {reply : Reply}
    (h : MockHost.native.Answers ⟨some m, true⟩ xs host')
    (hx : xs.filterMap Exchange.initReply? = [reply]) :
    ∃ m', host' = ⟨some m', true⟩ ∧ m'.pending = none ∧
      ∀ p, m.pending = some p → ⟨m'.instanceAt reply.handle, reply.code⟩ = p := by
  obtain ⟨before, x, later, rfl, hbefore, hone, hlater⟩ := List.filterMap_eq_cons_iff.mp hx
  have hinit : x.call = .init ∧ x.reply = reply := by
    rw [Exchange.initReply?] at hone
    split_ifs at hone with hc
    exact ⟨hc, Option.some.inj hone⟩
  obtain ⟨hinit, rfl⟩ := hinit
  obtain ⟨host₁, h₁, h₂⟩ := h.split
  obtain ⟨m₁, rfl, hsame₁⟩ := answers_sameInits h₁ fun x hmem hc =>
    absurd hc (call_ne_init (hbefore x hmem))
  have hrespond (a : Address) : (MockHost.native.respond a x.call ⟨some m₁, true⟩).Ends
      fun r => r = (m₁.respondInit.1, ⟨some m₁.respondInit.2, true⟩) := by
    rw [hinit]
    exact rfl
  obtain ⟨host₂, hfirst, h₃⟩ := h₂.first hrespond
  obtain ⟨hreply, rfl⟩ := Prod.mk.inj hfirst
  obtain ⟨m', rfl, hsame₃⟩ := answers_sameInits h₃ fun x hmem hc =>
    absurd hc (call_ne_init (List.filterMap_eq_nil_iff.mp hlater x hmem))
  obtain ⟨hpending, hgiven⟩ := respondInit_given m₁
  refine ⟨m', rfl, hsame₃.1.trans hpending, fun p hp => ?_⟩
  obtain ⟨hinstance, hcode⟩ := hgiven p (hsame₁.1.trans hp)
  rw [hreply, Mock.instanceAt_of_handles hsame₃.2, hinstance, hcode]

/-! ## Steps -/

/-- The init that waits still does after a step that makes none, or it has been answered in it. -/
inductive InitCourse (t : MockStep) (s : Session MockHost) (m m' : Mock) : Prop
  | kept (hp : m'.pending = m.pending) (hg : initsGiven t s = [])
  | answered (hp : m'.pending = none) (hg : ∀ p, m.pending = some p → initsGiven t s = [p])

theorem answers_pending {host' : MockHost} {b : Bool} {xs : List Exchange}
    (h : MockHost.native.Answers ⟨some m, b⟩ xs host') (hx : ∀ x ∈ xs, x.call = .init → b = false)
    (hm' : host'.mock = some m') : m'.pending = m.pending := by
  obtain ⟨k, rfl, hsame⟩ := answers_sameInits h hx
  cases hm'
  exact hsame.1

/-- What the mock is told keeps the init that waits, but for another. -/
theorem told_pending {f : Mock → Except Mock.Trouble Mock} (htold : t.told? = some f) (hf : f m = .ok m')
    (ht : initOf? t = none) : m'.pending = m.pending := by
  cases t with
  | expect id call =>
    cases htold
    cases hf
    rfl
  | setSignature text code =>
    cases htold
    obtain ⟨bytes, rfl⟩ := Mock.setSignature_eq hf
    rfl
  | setOptions id offers =>
    cases htold
    obtain ⟨rows, rfl⟩ := Mock.setOptions_eq hf
    rfl
  | expectInit id => cases ht
  | expectInitFailure code => cases ht
  | _ => cases htold

theorem initsGiven_of_ne (ht : ∀ action, t ≠ .client action true) : initsGiven t s = [] := by
  cases t with
  | client action b =>
    cases b with
    | false => rfl
    | true => exact absurd rfl (ht action)
  | _ => rfl

/-- A client makes one init in a step at most. -/
theorem client_inits {action : Step} {host' : MockHost} (hs : s.stage.Sound)
    (ha : MockHost.native.Answers ⟨some m, true⟩ (asked (.client action true) s) host')
    (hhost : host'.mock = some m') (hm' : (host (step (.client action true) s).2).mock = some m') :
    InitCourse (.client action true) s m m' := by
  let s₁ := setHost { host s with onThread := true } s
  have hs₁ : s₁.stage.Sound := (ByTurns.setHost _ s).sound hs
  have hreplies : initReplies ((step (.client action true) s).2.trace.drop s.trace.length) =
      (asked (.client action true) s).filterMap Exchange.initReply? := initReplies_eq _
  have hone : initReplies ((step (.client action true) s).2.trace.drop s.trace.length) = [] ∨
      ∃ reply, initReplies ((step (.client action true) s).2.trace.drop s.trace.length) = [reply] :=
    Session.initReplies_length_le (N := MockHost.native) hs₁.keys (.client action)
  rcases hone with hnone | ⟨reply, hone⟩
  · have hno := List.filterMap_eq_nil_iff.mp (hreplies.symm.trans hnone)
    refine .kept (answers_pending ha (fun x hx hc => absurd hc (call_ne_init (hno x hx))) hhost) ?_
    rw [initsGiven, hnone]
    rfl
  · obtain ⟨k, rfl, hpending, hgiven⟩ := answers_inits ha (hreplies.symm.trans hone)
    cases hhost
    refine .answered hpending fun p hp => ?_
    rw [initsGiven, hone, hm']
    exact congrArg (fun p => [p]) (hgiven p hp)

theorem step_initCourse (hs : s.stage.Sound) (hm : (host s).mock = some m)
    (hm' : (host (step t s).2).mock = some m') (ht : initOf? t = none) : InitCourse t s m m' := by
  have hquiet (hpending : m'.pending = m.pending) (hc : ∀ action, t ≠ .client action true) :
      InitCourse t s m m' := .kept hpending (initsGiven_of_ne hc)
  cases step_course hs hm hm' with
  | told htold hf ha =>
    refine hquiet (told_pending htold hf ht) ?_
    rintro action rfl
    cases htold
  | kept _ hno =>
    refine hquiet rfl ?_
    rintro action rfl
    cases hno
  | cleared ht =>
    subst ht
    exact hquiet rfl nofun
  | @raw _ c _ _ _ ht _ _ ha hhost =>
    subst ht
    refine hquiet (answers_pending ha (fun x hx hinit => ?_) hhost) nofun
    rw [List.mem_singleton.mp hx] at hinit
    cases c <;> cases hinit
  | @client action b _ _ ht ha hhost =>
    subst ht
    cases b with
    | false => exact hquiet (answers_pending ha (fun _ _ _ => rfl) hhost) nofun
    | true => exact client_inits hs ha hhost hm'

/-! ## Inits one after the other -/

/-- Of the inits that were expected each was answered, or waits, or was replaced; those which were answered,
and then the one that waits, stand in the order in which they were expected. -/
structure Inits.Balanced (n : Inits) (pending : Option Pending) : Prop where
  order : (n.answered ++ pending.toList).Sublist n.expected
  all : n.expected.Perm (n.answered ++ pending.toList ++ n.replaced)
  last : ∀ p, pending = some p → n.expected.getLast? = some p

namespace Inits.Balanced

variable {n : Inits} {pending : Option Pending} {p : Pending}

theorem fresh : ({} : Inits).Balanced none := ⟨.slnil, .nil, nofun⟩

/-- One that waits is seen to wait. -/
theorem isOpen (h : n.Balanced pending) : n.isOpen = pending.isSome := by
  have hlength := h.all.length_eq
  rw [List.length_append, List.length_append] at hlength
  unfold Inits.isOpen
  cases pending with
  | none => exact decide_eq_false (by simp at hlength; omega)
  | some p => exact decide_eq_true (by simp at hlength; omega)

/-- The one that waits, which is the one that was expected last, is replaced if another is expected. -/
theorem replaced (h : n.Balanced pending) (p : Pending) :
    (n.expect p).replaced = n.replaced ++ pending.toList := by
  have hlast : (if n.isOpen then n.expected.getLast?.toList else []) = pending.toList := by
    rw [h.isOpen]
    cases pending with
    | none => rfl
    | some p => rw [Option.isSome_some, if_pos rfl, h.last p rfl]
  rw [Inits.expect, hlast]

/-- Another init is expected, which waits from now on. -/
theorem expect (h : n.Balanced pending) (p : Pending) : (n.expect p).Balanced (some p) := by
  have hanswered : n.answered.Sublist n.expected := (List.sublist_append_left _ _).trans h.order
  refine ⟨hanswered.append (.refl [p]), List.perm_iff_count.mpr fun q => ?_, ?_⟩
  · have hall := h.all.count_eq q
    rw [h.replaced]
    unfold Inits.expect
    simp only [List.count_append, Option.toList_some] at hall ⊢
    omega
  · rintro q ⟨⟩
    exact List.getLast?_concat

/-- While none waits there is nothing to answer. -/
theorem answer_none (h : n.Balanced none) (given : List Pending) : n.answer given = n := by
  rw [Inits.answer, h.isOpen, Option.isSome_none, if_neg Bool.false_ne_true, List.append_nil]

/-- The one that waits is answered. -/
theorem answer_some (h : n.Balanced (some p)) : (n.answer [p]).Balanced none := by
  have hanswer : n.answer [p] = { n with answered := n.answered ++ [p] } := by
    rw [Inits.answer, h.isOpen, Option.isSome_some, if_pos rfl]
  rw [hanswer]
  refine ⟨?_, ?_, nofun⟩
  · rw [Option.toList_none, List.append_nil]
    exact h.order
  · rw [Option.toList_none, List.append_nil]
    exact h.all

theorem answer_nil (n : Inits) : n.answer [] = n := by
  rw [Inits.answer, ite_self, List.append_nil]

/-- All are answered in order, but for the one that waits, just if none was replaced. -/
theorem in_order_iff (h : n.Balanced pending) :
    n.expected = n.answered ++ pending.toList ↔ n.replaced = [] := by
  have hlength := h.all.length_eq
  rw [List.length_append] at hlength
  constructor
  · intro heq
    rw [heq] at hlength
    exact List.eq_nil_of_length_eq_zero (by omega)
  · intro hnone
    rw [hnone, List.length_nil, Nat.add_zero] at hlength
    exact (h.order.eq_of_length hlength.symm).symm

end Inits.Balanced

/-- What is seen of inits in a step balances with what the mock expects. -/
theorem balanced_step {n : Inits} (hs : s.stage.Sound) (hm : (host s).mock = some m)
    (hm' : (host (step t s).2).mock = some m') (h : n.Balanced m.pending) :
    (seeInits t s n).Balanced m'.pending := by
  have hexpects {p : Pending} {f : Mock → Except Mock.Trouble Mock} (hp : initOf? t = some p)
      (htold : t.told? = some f) (hf : ∀ k, f m = .ok k → k.pending = some p) :
      (seeInits t s n).Balanced m'.pending := by
    have hsee : seeInits t s n = if (step t s).1.isDone then n.expect p else n := by rw [seeInits, hp]
    rw [hsee]
    cases step_course hs hm hm' with
    | told htold' hf' ha =>
      cases htold.symm.trans htold'
      rw [if_pos ha, hf _ hf']
      exact h.expect p
    | kept hquiet _ =>
      rw [hquiet (htold ▸ rfl), if_neg Bool.false_ne_true]
      exact h
    | cleared ht => rw [ht] at hp; cases hp
    | client ht _ _ => rw [ht] at hp; cases hp
    | raw ht _ _ _ _ => rw [ht] at hp; cases hp
  cases ht : initOf? t with
  | some p =>
    cases t with
    | expectInit id =>
      cases ht
      refine hexpects rfl rfl fun k hk => ?_
      rw [(Mock.expectInit_eq hk).2]
    | expectInitFailure code =>
      cases ht
      refine hexpects rfl rfl fun k hk => ?_
      cases hk
      rfl
    | _ => cases ht
  | none =>
    have hsee : seeInits t s n = n.answer (initsGiven t s) := by rw [seeInits, ht]
    rw [hsee]
    cases step_initCourse hs hm hm' ht with
    | kept hpending hnothing =>
      rw [hpending, hnothing, Inits.Balanced.answer_nil]
      exact h
    | answered hpending hgiven =>
      rw [hpending]
      cases hp : m.pending with
      | none =>
        rw [hp] at h
        rw [h.answer_none]
        exact h
      | some p =>
        rw [hp] at h
        rw [hgiven p hp]
        exact h.answer_some

/-- By induction on the steps. -/
theorem balanced_after (opening : Session.Opening) (steps : List MockStep) :
    let s := (Session.start opening {}).2
    ∀ m, (host (after steps s)).mock = some m → (inits steps s).Balanced m.pending :=
  notes_keep (Q := fun m (n : Inits) => n.Balanced m.pending) opening steps Inits.Balanced.fresh
    (fun _ => rfl) fun _ _ _ _ _ hs hm hm' h => balanced_step hs.sound hm hm' h

/-- An init that is to fail takes the place of any other. -/
theorem replaced_failing {n : Inits} (hm : (host s).mock = some m) (h : n.Balanced m.pending)
    (code : Code) :
    (seeInits (.expectInitFailure code) s n).replaced = n.replaced ++ m.pending.toList := by
  have htell : step (.expectInitFailure code) s = _ := onMock_of_mock hm
  rw [← h.replaced ⟨none, code⟩, seeInits, initOf?, htell]
  rfl

/-- Nothing else takes the place of an init. -/
theorem replaced_of_ne {n : Inits} (hm : (host s).mock = some m) (h : n.Balanced m.pending)
    (ht : ∀ code, t ≠ .expectInitFailure code) : (seeInits t s n).replaced = n.replaced := by
  cases t with
  | expectInitFailure code => exact absurd rfl (ht code)
  | expectInit id =>
    have hsee : seeInits (.expectInit id) s n =
        if (step (.expectInit id) s).1.isDone then n.expect ⟨some id, .ok⟩ else n := rfl
    have htell : step (.expectInit id) s = _ := onMock_of_mock hm
    dsimp only at htell
    cases hf : m.expectInit id with
    | ok m' =>
      obtain ⟨hnone, -⟩ := Mock.expectInit_eq hf
      have hdone : (step (.expectInit id) s).1.isDone = true := by rw [htell, hf]; rfl
      rw [hsee, if_pos hdone, h.replaced, hnone, Option.toList_none, List.append_nil]
    | error e =>
      have hpanics : (step (.expectInit id) s).1.isDone = false := by rw [htell, hf]; rfl
      rw [hsee, hpanics, if_neg Bool.false_ne_true]
  | _ => rfl

/-- **The inits that were expected are answered in the order in which they were, each once and by its own
instance or code, but for one that still waits, just if none was replaced.** In any case those which were
not replaced are. While an init waits there is something outstanding, and an init that makes an instance
cannot be expected. One that fails can, and it takes the place of the one that waits; nothing else does. -/
theorem inits_in_order_iff (opening : Session.Opening) (steps : List MockStep) :
    let start := (Session.start opening ({} : MockHost)).2
    let s := after steps start
    let n := inits steps start
    ∀ m, (host s).mock = some m →
      (n.expected = n.answered ++ m.pending.toList ↔ n.replaced = []) ∧
      (n.answered ++ m.pending.toList).Sublist n.expected ∧
      n.expected.Perm (n.answered ++ m.pending.toList ++ n.replaced) ∧
      (m.pending.isSome → (step .outstanding s).1 = .done (.flag true) ∧
        ∀ id, (step (.expectInit id) s).1 = .stopped (.panic (.fixed "an init call is already expected"))) ∧
      (∀ code, (step (.expectInitFailure code) s).1 = .done .nothing ∧
        (seeInits (.expectInitFailure code) s n).replaced = n.replaced ++ m.pending.toList) ∧
      ∀ t, (∀ code, t ≠ .expectInitFailure code) → (seeInits t s n).replaced = n.replaced := by
  intro start s n m hm
  have hbalanced : n.Balanced m.pending := balanced_after opening steps m hm
  refine ⟨hbalanced.in_order_iff, hbalanced.order, hbalanced.all, fun hwaits => ⟨?_, fun id => ?_⟩,
    fun code => ⟨?_, replaced_failing hm hbalanced code⟩, fun t => replaced_of_ne hm hbalanced⟩
  · have hask : step .outstanding s = _ := onMock_of_mock hm
    have hopen : m.isOutstanding = true := by rw [Mock.isOutstanding, hwaits, Bool.true_or]
    rw [hask]
    exact congrArg (fun b => Answer.done (.flag b)) hopen
  · have htell : step (.expectInit id) s = _ := onMock_of_mock hm
    rw [htell]
    dsimp only
    rw [Mock.expectInit, if_pos hwaits]
    rfl
  · have htell : step (.expectInitFailure code) s = _ := onMock_of_mock hm
    rw [htell]

/-- A second init cannot be expected while the first waits; two more are, in their turn. -/
theorem waiting_init_kept :
    let steps : List MockStep := [.expectInit 1, .expectInit 2, .client (.create 1) true,
      .expectInitFailure ⟨5⟩, .client (.create 2) true, .expectInit 3]
    let s := after steps (Session.start .known {}).2
    let n := inits steps (Session.start .known {}).2
    n.replaced = [] ∧ n.answered = [⟨some 1, .ok⟩, ⟨none, ⟨5⟩⟩] ∧
      n.expected = n.answered ++ [⟨some 3, .ok⟩] ∧ (step .outstanding s).1 = .done (.flag true) := by
  intro steps s n
  obtain ⟨hiff, -, -, hwaits, -⟩ := inits_in_order_iff .known steps _ rfl
  have hnone : n.replaced = [] := by rfl
  exact ⟨hnone, by rfl, hiff.mpr hnone, (hwaits rfl).1⟩

/-- **An init that is expected can be lost.** One that fails is expected in its place, without a panic; in
the end there is no fault, and nothing is outstanding. -/
theorem expected_init_lost :
    let steps : List MockStep := [.expectInit 1, .expectInitFailure ⟨3⟩, .client (.create 1) true]
    let start := (Session.start .known ({} : MockHost)).2
    let s := after steps start
    let n := inits steps start
    (step (.expectInitFailure ⟨3⟩) (after [.expectInit 1] start)).1 = .done .nothing ∧
      n.expected = [⟨some 1, .ok⟩, ⟨none, ⟨3⟩⟩] ∧ n.answered = [⟨none, ⟨3⟩⟩] ∧
      (step .outstanding s).1 = .done (.flag false) ∧ (step .faults s).1 = .done (.texts []) ∧
      ¬ ∃ m, (host s).mock = some m ∧ n.expected = n.answered ++ m.pending.toList := by
  intro steps start s n
  refine ⟨rfl, by rfl, by rfl, by rfl, by rfl, ?_⟩
  rintro ⟨m, hm, heq⟩
  cases hm
  exact absurd heq (by decide +kernel)

end MockSession
end SatClient
