import SatClient.Proofs.MockExact

/-!
# What the mock finds fault with

To a call on an instance that has been made the mock notes one fault, or none. It notes none just if
the call is the next one that is expected, and fits; then it is taken from the queue.

* `answersIn`, `World.call_deed`: the answers to polls in a trace, and a call with them
* `Mock.Took`, `Mock.Operated`: what matters to the calls that come after
* **`Mock.respondInstance_operated`**: every call on an instance but its release
* `Mock.respondRelease_judged`: its release
-/

namespace SatClient

variable {α : Type}

/-! ## The answers to polls -/

def Event.answer? : Event → Option Int32
  | answered a => some a
  | _ => none

/-- The answers to the polls in a trace. -/
def answersIn (events : List Event) : List Int32 := events.filterMap Event.answer?

@[simp] theorem answersIn_append (l l' : List Event) :
    answersIn (l ++ l') = answersIn l ++ answersIn l' := List.filterMap_append

/-- Of a visit only what comes beside it can be an answer. -/
theorem Bridge.Visit.answersIn {i : Nat} {b b' : Bridge} {events : List Event}
    (h : Bridge.Visit i b events b') {e : Event} (he : e.IsAside) :
    (∀ x ∈ events ++ [e], x.OfVisit) ∧ answersIn (events ++ [e]) = e.answer?.toList := by
  constructor
  · exact List.forall_mem_append.mpr ⟨h.ofVisit, List.forall_mem_singleton.mpr he.ofVisit⟩
  · have hnone : SatClient.answersIn events = [] := by cases h <;> rfl
    rw [answersIn_append, hnone, List.nil_append]
    cases e <;> rfl

theorem Event.ofVisit_pair {e e' : Event} (h : e.OfVisit) (h' : e'.OfVisit) : ∀ x ∈ [e, e'], x.OfVisit :=
  List.forall_mem_cons.mpr ⟨h, List.forall_mem_singleton.mpr h'⟩

namespace Client

open Event

theorem poll_events (hook : Hook) (c : Client) :
    ∃ events, (c.poll hook).2.trace = c.trace ++ events ∧ (∀ e ∈ events, e.OfVisit) ∧
      answersIn events = [(c.poll hook).1] := by
  simp only [poll]
  cases hook.callback with
  | foreign => exact ⟨_, rfl, ofVisit_pair trivial trivial, rfl⟩
  | trampoline =>
    cases hb : c.bridges.get? hook.data with
    | none => exact ⟨_, rfl, ofVisit_pair trivial trivial, rfl⟩
    | some b => exact ⟨_, rfl, (b.poll_visit hook.data).answersIn trivial⟩

theorem offer_events (hook : Hook) (memory : Option (List Int32)) (c : Client) :
    ∃ events, (c.offer hook memory).trace = c.trace ++ events ∧ (∀ e ∈ events, e.OfVisit) ∧
      answersIn events = [] := by
  simp only [offer]
  cases hook.callback with
  | foreign => exact ⟨_, rfl, ofVisit_pair trivial trivial, rfl⟩
  | trampoline =>
    cases hb : c.bridges.get? hook.data with
    | none => exact ⟨_, rfl, ofVisit_pair trivial trivial, rfl⟩
    | some b => exact ⟨_, rfl, (b.offer_visit hook.data (terminated memory)).answersIn trivial⟩

end Client

namespace Dialogue

variable {P Q : List Int32 → α → Prop} {d : Dialogue α}

/-- The answers are those in the trace. -/
theorem EndsWith.run (h : d.EndsWith P) (c : Client) :
    ∃ events, (d.run c).2.trace = c.trace ++ events ∧ (∀ e ∈ events, e.OfVisit) ∧
      P (answersIn events) (d.run c).1 := by
  induction d generalizing P c with
  | done a => exact ⟨[], (List.append_nil _).symm, List.forall_mem_nil _, h⟩
  | poll hook next ih =>
    obtain ⟨es, ht, hv, ha⟩ := c.poll_events hook
    obtain ⟨es', ht', hv', hP⟩ := ih (c.poll hook).1 (h _) (c.poll hook).2
    refine ⟨es ++ es', ?_, List.forall_mem_append.mpr ⟨hv, hv'⟩, ?_⟩
    · rw [← List.append_assoc, ← ht]
      exact ht'
    · rw [answersIn_append, ha]
      exact hP
  | offer hook memory next ih =>
    obtain ⟨es, ht, hv, ha⟩ := c.offer_events hook memory
    obtain ⟨es', ht', hv', hP⟩ := ih h (c.offer hook memory)
    refine ⟨es ++ es', ?_, List.forall_mem_append.mpr ⟨hv, hv'⟩, ?_⟩
    · rw [← List.append_assoc, ← ht]
      exact ht'
    · rw [answersIn_append, ha]
      exact hP
  | unregistered slot next ih =>
    obtain ⟨es, ht, hv, hP⟩ := ih h (c.note [.unregistered slot])
    refine ⟨.unregistered slot :: es, ?_, List.forall_mem_cons.mpr ⟨trivial, hv⟩, hP⟩
    rw [List.append_cons]
    exact ht

end Dialogue

/-! ## A call in a chronicle -/

/-- What does not end a call, nor begin one. -/
def Event.IsInner : Event → Prop
  | called .. | returned .. => False
  | _ => True

theorem Event.OfVisit.isInner {e : Event} (h : e.OfVisit) : e.IsInner := by
  cases e <;> trivial

section Deeds

variable (instanceAt : Handle → Option Nat) (nameAt : Option Descriptor → String)

/-- Between the ends of calls, only answers matter. -/
theorem deedsIn_inner {events : List Event} (h : ∀ e ∈ events, e.IsInner) (answers : List Int32)
    (rest : List Event) : deedsIn instanceAt nameAt answers (events ++ rest) =
      deedsIn instanceAt nameAt (answers ++ answersIn events) rest := by
  induction events generalizing answers with
  | nil => exact congrArg (deedsIn instanceAt nameAt · rest) (List.append_nil answers).symm
  | cons e events ih =>
    obtain ⟨he, hes⟩ := List.forall_mem_cons.mp h
    cases e with
    | called => exact he.elim
    | returned => exact he.elim
    | answered a =>
      refine (ih hes (answers ++ [a])).trans ?_
      rw [List.append_assoc]
      rfl
    | _ => exact ih hes answers

/-- A call with the answers in it. -/
theorem World.call_deed {σ : Type} {N : Native σ} {a : Address} {c : Call} {w : World σ}
    {P : List Int32 → Reply × σ → Prop} (h : (N.respond a c w.native).EndsWith P) (owner : Option Nat) :
    ∃ answers events, (w.call N owner a c).2.client.trace = w.client.trace ++ events ∧
      (∀ rest, deedsIn instanceAt nameAt [] (events ++ rest) =
        .made ⟨instanceAt (c.handle?.getD (w.call N owner a c).1.handle), c, nameAt c.option?, answers⟩ ::
          deedsIn instanceAt nameAt [] rest) ∧
      P answers ((w.call N owner a c).1, (w.call N owner a c).2.native) := by
  obtain ⟨es, ht, hv, hP⟩ := h.run (w.client.note [.called owner a c])
  refine ⟨answersIn es, .called owner a c :: (es ++ [.returned owner c (w.call N owner a c).1]), ?_,
    fun rest => ?_, hP⟩
  · show ((N.respond a c w.native).run (w.client.note [.called owner a c])).2.trace ++ _ = _
    rw [ht, List.append_assoc, List.append_cons w.client.trace]
    rfl
  · rw [List.cons_append, List.append_assoc]
    exact deedsIn_inner instanceAt nameAt (fun e he => (hv e he).isInner) [] _

end Deeds

/-! ## Every call on an instance -/

namespace Mock

/-- A call has been answered as expected, and was taken from the queue. -/
structure Took (id : Nat) (e : Expected) (rest : List Expected) (m m' : Mock) : Prop where
  faults : m'.faults = m.faults
  queue : (m'.instanceOf id).expected = rest
  released : (m'.instanceOf id).released = (m.instanceOf id).released
  posted : m'.posted id = e.posts (m.posted id)

variable {id : Nat} {e : Expected} {rest : List Expected} {m : Mock}

/-- A call is the next one that is expected, and was taken, or one fault is noted. -/
inductive Operated (id : Nat) (c : Made) (m m' : Mock) : Prop
  | taken {e : Expected} {rest : List Expected} (ha : m.Awaits id e rest) (h : e.Fits (m.posted id) c)
      (ht : Took id e rest m m')
  | faulted (h : ∀ e rest, m.Awaits id e rest → ¬ e.Fits (m.posted id) c) (f : Fault)
      (hf : m'.faults = m.faults ++ [f])

theorem Granted.took {c : Made} {r : Reply × Mock} (hfits : e.Fits (m.posted id) c)
    (h : Granted id e c.call (m.drawn id rest) r) : Took id e rest m r.2 := by
  have hof := h.instance_eq
  rw [drawn_instanceOf] at hof
  refine ⟨h.faults, by rw [hof], by rw [hof], funext fun slot => ?_⟩
  have hslot := Expected.leaves_isSome hfits slot
    (show m.posted id slot = (m.registration slot id).isSome from rfl)
  rw [← hslot, posted, registration, hof]
  cases slot <;> rfl

/-- **A call on an instance passes just if it is the next one that is expected, and fits.** -/
theorem respondInstance_operated (hi : (m.instanceOf id).initialised = true) {c : Call}
    (hc : c.entry ≠ .release) :
    (m.respondInstance id c).EndsWith fun answers r =>
      Operated id ⟨some id, c, m.nameAt c.option?, answers⟩ m r.2 := by
  obtain ⟨hrefused, hjudged⟩ := respondInstance_judged id hc m
  by_cases hnext : ∃ e rest, m.Next c.entry id e rest
  · obtain ⟨e, rest, hnext⟩ := hnext
    refine (hjudged e rest hnext).mono fun answers r hj => ?_
    cases hj with
    | granted hfits hgranted =>
      rw [drawn_posted] at hfits
      exact .taken hnext.awaits hfits (hgranted.took hfits)
    | refused hnot f =>
      rw [drawn_posted] at hnot
      refine .faulted (fun e' rest' ha => ?_) f rfl
      cases hnext.awaits.queue.symm.trans ha.queue
      exact hnot
  · obtain ⟨f, hf⟩ := hrefused fun e rest h => hnext ⟨e, rest, h⟩
    rw [hf]
    exact .faulted (fun e rest ha hfits => hnext ⟨e, rest, hi, ha, hfits.entry⟩) f rfl

/-- A release passes just if the instance is live and nothing more is expected of it. -/
theorem respondRelease_judged (hi : (m.instanceOf id).initialised = true) :
    ((m.instanceOf id).released = false ∧ (m.instanceOf id).expected = []) ∧
        (m.respondRelease id).2 =
          m.change id (fun i => { i with released := true, terminate := none, exporter := none }) ∨
      ¬ ((m.instanceOf id).released = false ∧ (m.instanceOf id).expected = []) ∧
        ∃ f, (m.respondRelease id).2 = m.fault f := by
  rcases respondRelease_cases id m with ⟨⟨-, hfree⟩, heq⟩ | ⟨hnot, f, heq⟩
  · exact .inl ⟨hfree, by rw [heq]⟩
  · exact .inr ⟨fun hfree => hnot ⟨hi, hfree⟩, f, by rw [heq]; rfl⟩

end Mock
end SatClient
