import Mathlib.Logic.Relation
import SatClient.Proofs.Operation

/-!
# What a native solver changes by calling back

However often and in whatever order a native solver calls back, it changes a client by visits, one
after the other. What a visit keeps, a call keeps.

* `Bridge.Visit`: a visit to a bridge, with what happens there; `Bridge.poll_visit`,
  `Bridge.offer_visit`: there is no other way to answer a poll or to take a clause
* `Client.Visit`, `Client.Visits`: visits to a client, one or many
* **`Dialogue.run_visits`**: a dialogue changes a client by visits
* `World.call_client`, `World.call_events`: a call, with the visits made in it
-/

namespace SatClient

open Relation

variable {σ α : Type}

/-! ## Visits to a bridge -/

namespace Bridge

/-- A visit of a native solver to the bridge of the solver `i`, with what happens. -/
inductive Visit (i : Nat) : Bridge → List Event → Bridge → Prop
  | idle (b : Bridge) : Visit i b [] b
  | asked {b : Bridge} {c : Closure} (hf : b.failure = none) (hc : b.terminate = some c) :
      Visit i b [.asked i c.tag] { b with terminate := some c.afterRun }
  | askedInVain {b : Bridge} {c : Closure} (p : Payload) (hf : b.failure = none)
      (hc : b.terminate = some c) :
      Visit i b [.asked i c.tag, .raised i p, .notice (.captured .terminate)]
        { b with terminate := some c.afterRun, failure := some p }
  | heard {b : Bridge} {l : Listener} {converted : List SignedVar} (clause : Clause)
      (hf : b.failure = none) (hl : b.exporter = some l) :
      Visit i b [.heard i l.closure.tag clause]
        { b with exporter := some { l with closure := l.closure.afterRun }, converted }
  | heardInVain {b : Bridge} {l : Listener} {converted : List SignedVar} (clause : Clause) (p : Payload)
      (hf : b.failure = none) (hl : b.exporter = some l) :
      Visit i b [.heard i l.closure.tag clause, .raised i p, .notice (.captured .exporter)]
        { b with
          exporter := some { l with closure := l.closure.afterRun }, failure := some p, converted }
  | unconverted {b : Bridge} {l : Listener} {converted : List SignedVar} (p : Payload)
      (hf : b.failure = none) (hl : b.exporter = some l) :
      Visit i b [.raised i p, .notice (.captured .exporter)] { b with failure := some p, converted }

theorem poll_visit (i : Nat) (b : Bridge) : Visit i b (b.poll i).2.2 (b.poll i).2.1 := by
  obtain ⟨t, e, f, ls⟩ := b
  cases f with
  | some p => exact .idle _
  | none =>
    cases t with
    | none => exact .idle _
    | some c =>
      simp only [poll]
      cases hc : c.conduct with
      | answers stop => exact .asked rfl rfl
      | panics p => exact .askedInVain p rfl rfl

theorem offer_visit (i : Nat) (natives : List Int32) (b : Bridge) :
    Visit i b (b.offer i natives).2 (b.offer i natives).1 := by
  obtain ⟨t, e, f, ls⟩ := b
  cases f with
  | some p => exact .idle _
  | none =>
    cases e with
    | none => exact .idle _
    | some l =>
      simp only [offer]
      cases hl : (l.form.receive natives ls).1 with
      | error o => exact .unconverted o.payload rfl rfl
      | ok clause =>
        cases hc : l.closure.conduct with
        | answers stop => exact .heard clause rfl rfl
        | panics p => exact .heardInVain clause p rfl rfl

end Bridge

/-! ## Visits to a client -/

/-- What happens beside the bridges when a native solver calls back. -/
def Event.IsAside : Event → Prop
  | answered _ | offered | unregistered _ | foreignAsked | foreignHeard _ | dangling _ => True
  | _ => False

namespace Client

/-- A visit of a native solver to a client. -/
inductive Visit : Client → Client → Prop
  /-- No bridge is visited. -/
  | aside (c : Client) {events : List Event} (he : ∀ e ∈ events, e.IsAside) : Visit c (c.note events)
  | bridge {c : Client} {i : Nat} {b b' : Bridge} {events : List Event} {e : Event}
      (hb : c.bridges.get? i = some b) (hv : b.Visit i events b') (he : e.IsAside) :
      Visit c ((c.setBridge i b').note (events ++ [e]))

/-- Visits one after the other. -/
abbrev Visits : Client → Client → Prop := ReflTransGen Visit

theorem visit_aside (c : Client) {e : Event} (h : e.IsAside) : Visit c (c.note [e]) := by
  refine .aside c ?_
  intro x hx
  rw [List.mem_singleton.mp hx]
  exact h

theorem visit_aside₂ (c : Client) {e e' : Event} (h : e.IsAside) (h' : e'.IsAside) :
    Visit c (c.note [e, e']) := by
  refine .aside c ?_
  intro x hx
  rcases List.mem_cons.mp hx with hx | hx
  · rw [hx]
    exact h
  · rw [List.mem_singleton.mp hx]
    exact h'

theorem poll_visit (hook : Hook) (c : Client) : Visit c (c.poll hook).2 := by
  simp only [poll]
  cases hook.callback with
  | foreign => exact visit_aside₂ c trivial trivial
  | trampoline =>
    cases hb : c.bridges.get? hook.data with
    | none => exact visit_aside₂ c trivial trivial
    | some b => exact .bridge hb (b.poll_visit hook.data) trivial

theorem offer_visit (hook : Hook) (memory : Option (List Int32)) (c : Client) :
    Visit c (c.offer hook memory) := by
  simp only [offer]
  cases hook.callback with
  | foreign => exact visit_aside₂ c trivial trivial
  | trampoline =>
    cases hb : c.bridges.get? hook.data with
    | none => exact visit_aside₂ c trivial trivial
    | some b => exact .bridge hb (b.offer_visit hook.data _) trivial

end Client

namespace Client

/-- A poll ends with its answer, whatever a closure does. -/
theorem poll_answers (hook : Hook) (c : Client) :
    (c.poll hook).2.trace.getLast? = some (.answered (c.poll hook).1) := by
  simp only [poll]
  cases hook.callback with
  | foreign => simp [note]
  | trampoline => cases c.bridges.get? hook.data <;> simp [note]

theorem offer_ends (hook : Hook) (memory : Option (List Int32)) (c : Client) :
    (c.offer hook memory).trace.getLast? = some .offered := by
  simp only [offer]
  cases hook.callback with
  | foreign => simp [note]
  | trampoline => cases c.bridges.get? hook.data <;> simp [note]

end Client

/-- What can be found in a trace of visits. -/
def Event.OfVisit : Event → Prop
  | notice _ | asked .. | heard .. | raised .. | answered _ | offered | unregistered _
  | foreignAsked | foreignHeard _ | dangling _ => True
  | _ => False

theorem Event.IsAside.ofVisit {e : Event} (h : e.IsAside) : e.OfVisit := by
  cases e <;> trivial

theorem Bridge.Visit.ofVisit {i : Nat} {b b' : Bridge} {events : List Event}
    (h : Bridge.Visit i b events b') : ∀ e ∈ events, e.OfVisit := by
  intro e he
  cases h with
  | idle => cases he
  | asked hf hc =>
    rw [List.mem_singleton.mp he]
    trivial
  | askedInVain p hf hc =>
    simp only [List.mem_cons, List.not_mem_nil, or_false] at he
    rcases he with rfl | rfl | rfl <;> trivial
  | heard clause hf hl =>
    rw [List.mem_singleton.mp he]
    trivial
  | heardInVain clause p hf hl =>
    simp only [List.mem_cons, List.not_mem_nil, or_false] at he
    rcases he with rfl | rfl | rfl <;> trivial
  | unconverted p hf hl =>
    simp only [List.mem_cons, List.not_mem_nil, or_false] at he
    rcases he with rfl | rfl <;> trivial

theorem Client.Visit.events {c c' : Client} (h : Client.Visit c c') :
    ∃ events, c'.trace = c.trace ++ events ∧ ∀ e ∈ events, e.OfVisit := by
  cases h with
  | aside he => exact ⟨_, rfl, fun e hm => (he e hm).ofVisit⟩
  | bridge hb hv he =>
    refine ⟨_, rfl, ?_⟩
    intro e hm
    rcases List.mem_append.mp hm with hm | hm
    · exact hv.ofVisit e hm
    · rw [List.mem_singleton.mp hm]
      exact he.ofVisit

/-- In visits no calls are made, no panic is taken from a cell, and no solver comes or goes. -/
theorem Client.Visits.events {c c' : Client} (h : Client.Visits c c') :
    ∃ events, c'.trace = c.trace ++ events ∧ ∀ e ∈ events, e.OfVisit := by
  induction h with
  | refl => exact ⟨[], by simp, by simp⟩
  | tail _ hv ih =>
    obtain ⟨events, ht, he⟩ := ih
    obtain ⟨events', ht', he'⟩ := hv.events
    refine ⟨events ++ events', by rw [ht', ht, List.append_assoc], ?_⟩
    intro e hm
    exact (List.mem_append.mp hm).elim (he e) (he' e)

/-- **A dialogue changes a client by visits.** -/
theorem Dialogue.run_visits (d : Dialogue α) (c : Client) : Client.Visits c (d.run c).2 := by
  induction d generalizing c with
  | done a => exact .refl
  | poll hook next ih => exact .head (c.poll_visit hook) (ih _ _)
  | offer hook memory next ih => exact .head (c.offer_visit hook memory) (ih _)
  | unregistered slot next ih =>
    have h : (Event.unregistered slot).IsAside := trivial
    exact .head (c.visit_aside h) (ih _)

/-- A call, with the visits made in it. -/
theorem World.call_client (N : Native σ) (owner : Option Nat) (a : Address) (c : Call)
    (w : World σ) :
    ∃ client, Client.Visits (w.client.note [.called owner a c]) client ∧
      (w.call N owner a c).2.client = client.note [.returned owner c (w.call N owner a c).1] :=
  ⟨_, Dialogue.run_visits _ _, rfl⟩

/-- What happens in a call. -/
theorem World.call_events (N : Native σ) (owner : Option Nat) (a : Address) (c : Call)
    (w : World σ) :
    ∃ events, (w.call N owner a c).2.client.trace = w.client.trace ++ ([.called owner a c] ++ events ++
        [.returned owner c (w.call N owner a c).1]) ∧ ∀ e ∈ events, e.OfVisit := by
  obtain ⟨client, hv, hc⟩ := World.call_client N owner a c w
  obtain ⟨events, ht, he⟩ := hv.events
  refine ⟨events, ?_, he⟩
  rw [hc]
  simp only [Client.note, ht, List.append_assoc]

end SatClient
