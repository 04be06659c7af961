import SatClient.Proofs.Stage

/-!
# What a turn adds to the trace

Nothing that has happened is taken back. What is new are calls to the functions that may be called in
the turn, each of which returns, what happens in visits, and what the library notes of its own.

* `old_or_new`: what stands in a trace that has grown was there before, or is new
* `callsMade`, `callsReturned`: the native calls in a trace
* `Event.Allowed`: what may happen where only some functions are called
* `Grows`: a trace with more of that at its end
* **`Session.turn_grows`**: a turn lets the trace grow
* `Session.passage_trace`: the trace after a turn, with what happened in it
-/

namespace SatClient

variable {σ α : Type} {N : Native σ} {es : List EntryPoint}

/-- What stands in a trace that has grown was there before, or is new. -/
theorem old_or_new {trace events before after : List Event} {e : Event}
    (h : trace ++ events = before ++ e :: after) :
    (∃ rest, trace = before ++ e :: rest ∧ after = rest ++ events) ∨
      ∃ mid, before = trace ++ mid ∧ events = mid ++ e :: after := by
  rcases List.append_eq_append_iff.mp h with hnew | ⟨mid, rfl, hafter⟩
  · exact .inr hnew
  · cases mid with
    | nil => exact .inr ⟨[], by simp, hafter.symm⟩
    | cons x rest =>
      obtain ⟨rfl, rfl⟩ := List.cons.inj hafter
      exact .inl ⟨rest, rfl, rfl⟩

def Event.called? : Event → Option (Option Nat × Call)
  | called owner _ c => some (owner, c)
  | _ => none

def Event.returned? : Event → Option (Option Nat × Call)
  | returned owner c _ => some (owner, c)
  | _ => none

/-- The native calls begun. -/
def callsMade (trace : List Event) : List (Option Nat × Call) := trace.filterMap Event.called?

/-- The native calls that have returned. -/
def callsReturned (trace : List Event) : List (Option Nat × Call) := trace.filterMap Event.returned?

@[simp] theorem callsMade_append (l l' : List Event) :
    callsMade (l ++ l') = callsMade l ++ callsMade l' := List.filterMap_append

@[simp] theorem callsReturned_append (l l' : List Event) :
    callsReturned (l ++ l') = callsReturned l ++ callsReturned l' := List.filterMap_append

/-- What may happen where no functions are called but those in the list `es`. -/
def Event.Allowed (es : List EntryPoint) : Event → Prop
  | called _ _ c | returned _ c _ => c.entry ∈ es
  | resumed .. => .solve ∈ es
  | _ => True

/-- What the library notes without a call. -/
def Event.IsNote : Event → Prop
  | called .. | returned .. | resumed .. => False
  | _ => True

theorem Event.OfVisit.isNote {e : Event} (h : e.OfVisit) : e.IsNote := by
  cases e <;> trivial

theorem callsMade_of_isNote {events : List Event} (h : ∀ e ∈ events, e.IsNote) :
    callsMade events = [] := by
  refine List.filterMap_eq_nil_iff.mpr ?_
  intro e he
  have := h e he
  cases e <;> first | rfl | cases this

theorem callsReturned_of_isNote {events : List Event} (h : ∀ e ∈ events, e.IsNote) :
    callsReturned events = [] := by
  refine List.filterMap_eq_nil_iff.mpr ?_
  intro e he
  have := h e he
  cases e <;> first | rfl | cases this

theorem Event.IsNote.allowed {e : Event} (h : e.IsNote) : e.Allowed es := by
  cases e <;> trivial

/-- A trace with more at its end: calls which have all returned, to functions in the list `es`. -/
def Grows (es : List EntryPoint) (trace trace' : List Event) : Prop :=
  ∃ events, trace' = trace ++ events ∧ callsMade events = callsReturned events ∧
    ∀ e ∈ events, e.Allowed es

namespace Grows

variable {t t' t'' : List Event}

theorem refl (es : List EntryPoint) (t : List Event) : Grows es t t := ⟨[], by simp, rfl, by simp⟩

theorem trans (h : Grows es t t') (h' : Grows es t' t'') : Grows es t t'' := by
  obtain ⟨events, ht, hc, ha⟩ := h
  obtain ⟨events', ht', hc', ha'⟩ := h'
  refine ⟨events ++ events', ?_, ?_, ?_⟩
  · rw [ht', ht, List.append_assoc]
  · rw [callsMade_append, callsReturned_append, hc, hc']
  · intro e he
    exact (List.mem_append.mp he).elim (ha e) (ha' e)

theorem notes {events : List Event} (t : List Event) (h : ∀ e ∈ events, e.IsNote) :
    Grows es t (t ++ events) := by
  exact ⟨events, rfl, (callsMade_of_isNote h).trans (callsReturned_of_isNote h).symm,
    fun e he => (h e he).allowed⟩

theorem note {e : Event} (t : List Event) (h : e.IsNote) : Grows es t (t ++ [e]) :=
  notes t (by simpa using h)

end Grows

theorem Client.Visits.grows {c c' : Client} (h : Client.Visits c c') : Grows es c.trace c'.trace := by
  obtain ⟨events, ht, hv⟩ := h.events
  rw [ht]
  exact .notes _ fun e he => (hv e he).isNote

theorem World.call_grows (owner : Option Nat) (a : Address) {c : Call} (hc : c.entry ∈ es)
    (w : World σ) : Grows es w.client.trace (w.call N owner a c).2.client.trace := by
  obtain ⟨events, ht, hv⟩ := World.call_events N owner a c w
  have hn : ∀ e ∈ events, e.IsNote := fun e he => (hv e he).isNote
  refine ⟨_, ht, ?_, ?_⟩
  · simp only [callsMade_append, callsReturned_append, callsMade_of_isNote hn,
      callsReturned_of_isNote hn]
    rfl
  · intro e he
    simp only [List.append_assoc, List.mem_append, List.mem_singleton] at he
    rcases he with rfl | he | rfl
    · exact hc
    · exact (hn e he).allowed
    · exact hc

theorem Event.GivesBack.isNote {i : Nat} {e : Event} (h : e.GivesBack i) : e.IsNote := by
  cases h <;> trivial

/-- At the end of a solver, of which others are told, no functions are called. -/
theorem Solver.close_noted_trace (f : Focus σ) {events : List Event}
    (ht : ∀ e ∈ events, ∃ n, e = .notice n) :
    ∃ notes, (close (f.note events)).client.trace = f.world.client.trace ++ notes ∧
      ∀ e ∈ notes, e.IsNote := by
  obtain ⟨rest, hrest, hback⟩ := close_trace (f.note events)
  refine ⟨events ++ rest, hrest.trans (List.append_assoc _ _ _), ?_⟩
  intro e he
  rcases List.mem_append.mp he with he | he
  · obtain ⟨n, rfl⟩ := ht e he
    trivial
  · exact (hback e he).isNote

theorem Solver.Move.grows {f f' : Focus σ} (h : Solver.Move N es f f') :
    Grows es f.world.client.trace f'.world.client.trace := by
  cases h with
  | tell n => exact .note _ trivial
  | buffer buffer => exact .refl es _
  | options he => exact .refl es _
  | call he hc => exact World.call_grows _ _ he _
  | resume he hp => exact ⟨_, rfl, rfl, by simpa [Event.Allowed] using he⟩
  | take he => exact .note _ trivial
  | drop he => exact .note _ trivial
  | settleTerminate he =>
    exact .notes _ fun e he => (f.bridge.dropEvents_givesBack _ .terminate e he).isNote
  | settleExporter he =>
    exact .notes _ fun e he => (f.bridge.dropEvents_givesBack _ .exporter e he).isNote

theorem Stage.Move.grows {st st' : Stage σ} (h : Stage.Move N es st st') :
    Grows es st.world.client.trace st'.world.client.trace := by
  cases h with
  | tell n => exact .note _ trivial
  | unload => exact .note _ trivial
  | ask he hc => exact World.call_grows _ _ he _
  | operate hk h => exact h.grows
  | beget he hn => exact .note _ trivial
  | keep hn hk => exact .refl es _
  | @finish key solver events he hk ht =>
    let f : Focus σ := ((⟨solver, st.world⟩ : Focus σ).call N (.release solver.handle)).2
    have hc : Grows es st.world.client.trace f.world.client.trace := World.call_grows _ _ he _
    obtain ⟨notes, hnotes, hn⟩ := Solver.close_noted_trace f ht
    refine hc.trans ?_
    rw [hnotes]
    exact .notes _ hn

theorem Stage.Moves.grows {st st' : Stage σ} (h : Stage.Moves N es st st') :
    Grows es st.world.client.trace st'.world.client.trace := by
  induction h with
  | refl => exact .refl es _
  | tail _ hm ih => exact ih.trans hm.grows

/-! ## Turns -/

namespace Session

variable {s : Session σ}

/-- In a turn the library calls no functions but those of the turn. -/
theorem turn_trace_grows (hs : s.solvers.keys.Nodup) (t : Turn σ) :
    Grows t.entries s.trace (s.turn N t).2.trace := by
  cases t with
  | client action => exact (step_moves hs action).grows
  | native d => exact (d.run_visits s.world.client).grows

theorem passage_events {t : Turn σ} {events : List Event}
    (ht : (s.turn N t).2.trace = s.trace ++ events) : (s.passage N t).events = events := by
  show (s.turn N t).2.trace.drop s.trace.length = events
  rw [ht, List.drop_left]

/-- The trace after a turn is the one before it and what happened in the turn. -/
theorem passage_trace (hs : s.solvers.keys.Nodup) (t : Turn σ) :
    (s.turn N t).2.trace = s.trace ++ (s.passage N t).events := by
  obtain ⟨events, ht, -⟩ := turn_trace_grows (N := N) hs t
  rw [passage_events ht]
  exact ht

/-- **In a turn all calls that are made return, and they are to functions of the turn.** -/
theorem turn_grows (hs : s.solvers.keys.Nodup) (t : Turn σ) :
    callsMade (s.passage N t).events = callsReturned (s.passage N t).events ∧
      ∀ e ∈ (s.passage N t).events, e.Allowed t.entries := by
  obtain ⟨events, ht, hc, ha⟩ := turn_trace_grows (N := N) hs t
  rw [passage_events ht]
  exact ⟨hc, ha⟩

theorem mem_course {turns : List (Turn σ)} {p : Passage σ} (hp : p ∈ s.course N turns) :
    ∃ earlier t later, turns = earlier ++ t :: later ∧ p = (s.after N earlier).passage N t := by
  induction turns generalizing s with
  | nil => cases hp
  | cons t ts ih =>
    rcases List.mem_cons.mp hp with rfl | hp
    · exact ⟨[], t, ts, rfl, rfl⟩
    · obtain ⟨earlier, u, later, rfl, rfl⟩ := ih hp
      exact ⟨t :: earlier, u, later, rfl, rfl⟩

end Session
end SatClient
