import SatClient.Proofs.Registration

/-!
# Closures in custody

A closure that is given to the library is kept in its slot until a later registration there, or the
end of the solver, and is then dropped. One that cannot be registered is dropped at once, and what
was in the slot with it.

* `taken`, `dropped`: the closures given for a slot of a solver, and those dropped from it
* `RunsHeld`: every run is of the first closure given that has not been dropped
* `Client.Custody`: the closures given are those dropped, the one held, and those to be settled
* **`Stage.Moves.custody`**: moves that are not for the slot keep its closures in custody
* **`Stage.Moves.parts`**: where nothing is registered, what is dropped is dropped after a release
* `Solver.Hands`: what each of the four operations of registration does with its closure
-/

namespace SatClient

variable {σ α : Type} {N : Native σ} {es : List EntryPoint} {slot : Slot} {i : Nat}

/-! ## Closures in a trace -/

def Event.taken? (slot : Slot) (i : Nat) : Event → Option String
  | taken j slot' tag => if slot' = slot ∧ j = i then some tag else none
  | _ => none

def Event.dropped? (slot : Slot) (i : Nat) : Event → Option String
  | dropped j slot' tag => if slot' = slot ∧ j = i then some tag else none
  | _ => none

/-- The closures given for a slot of the solver `i`, in order. -/
def taken (slot : Slot) (i : Nat) (trace : List Event) : List String :=
  trace.filterMap (Event.taken? slot i)

/-- The closures given for a slot of the solver `i` that have been dropped, in order. -/
def dropped (slot : Slot) (i : Nat) (trace : List Event) : List String :=
  trace.filterMap (Event.dropped? slot i)

@[simp] theorem taken_append (l l' : List Event) :
    taken slot i (l ++ l') = taken slot i l ++ taken slot i l' := List.filterMap_append

@[simp] theorem dropped_append (l l' : List Event) :
    dropped slot i (l ++ l') = dropped slot i l ++ dropped slot i l' := List.filterMap_append

/-- Events in which no closure of the slot changes hands. -/
def Idle (slot : Slot) (i : Nat) (events : List Event) : Prop :=
  ∀ e ∈ events, e.taken? slot i = none ∧ e.dropped? slot i = none

namespace Idle

variable {events events' : List Event}

theorem nil : Idle slot i [] := fun _ he => absurd he List.not_mem_nil

theorem taken (h : Idle slot i events) : taken slot i events = [] :=
  List.filterMap_eq_nil_iff.mpr fun e he => (h e he).1

theorem dropped (h : Idle slot i events) : dropped slot i events = [] :=
  List.filterMap_eq_nil_iff.mpr fun e he => (h e he).2

theorem append (h : Idle slot i events) (h' : Idle slot i events') : Idle slot i (events ++ events') :=
  fun e he => (List.mem_append.mp he).elim (h e) (h' e)

theorem singleton {e : Event} (ht : e.taken? slot i = none) (hd : e.dropped? slot i = none) :
    Idle slot i [e] := by
  intro e' he
  rw [List.mem_singleton.mp he]
  exact ⟨ht, hd⟩

theorem of_ofVisit (h : ∀ e ∈ events, e.OfVisit) : Idle slot i events := by
  intro e he
  have hv := h e he
  cases e <;> first | exact ⟨rfl, rfl⟩ | cases hv

theorem of_owner? (h : ∀ e ∈ events, e.owner? ≠ some i) : Idle slot i events := by
  intro e he
  have ho := h e he
  cases e with
  | taken j slot' tag => exact ⟨if_neg fun hj => ho (congrArg some hj.2), rfl⟩
  | dropped j slot' tag => exact ⟨rfl, if_neg fun hj => ho (congrArg some hj.2)⟩
  | _ => exact ⟨rfl, rfl⟩

/-- What is dropped from one slot is not dropped from the other. -/
theorem of_dropEvents {j : Nat} {slot' : Slot} (b : Bridge) (h : slot' ≠ slot ∨ j ≠ i) :
    Idle slot i (b.dropEvents j slot') := by
  intro e he
  have hne : ¬ (slot' = slot ∧ j = i) := fun hj => h.elim (· hj.1) (· hj.2)
  cases slot' <;> obtain ⟨c, -, rfl⟩ := List.mem_map.mp he <;> exact ⟨rfl, if_neg hne⟩

theorem of_notices (h : ∀ e ∈ events, ∃ n, e = .notice n) : Idle slot i events := by
  intro e he
  obtain ⟨n, rfl⟩ := h e he
  exact ⟨rfl, rfl⟩

end Idle

/-! ## What a bridge drops -/

theorem Bridge.dropped_dropEvents (b : Bridge) :
    dropped slot i (b.dropEvents i slot) = ((b.occupant slot).map (·.closure.tag)).toList := by
  cases slot
  · cases hb : b.terminate <;> simp [Bridge.dropEvents, Bridge.occupant, dropped, Event.dropped?, hb]
  · cases hb : b.exporter <;> simp [Bridge.dropEvents, Bridge.occupant, dropped, Event.dropped?, hb]

/-- At the end of a solver what is in both slots is dropped, and what is in the cell is discarded. -/
theorem Bridge.dropped_ending (b : Bridge) :
    dropped slot i (b.dropEvents i .terminate ++ b.dropEvents i .exporter ++ b.discardEvents i ++
      [.closed i]) = ((b.occupant slot).map (·.closure.tag)).toList := by
  have hdis : dropped slot i (b.discardEvents i) = [] := by
    unfold Bridge.discardEvents
    cases b.failure <;> rfl
  have hclosed : dropped slot i [.closed i] = [] := rfl
  simp only [dropped_append, hdis, hclosed, List.append_nil]
  cases slot with
  | terminate =>
    have h : Idle .terminate i (b.dropEvents i .exporter) := .of_dropEvents b (.inl nofun)
    rw [Bridge.dropped_dropEvents, h.dropped, List.append_nil]
  | exporter =>
    have h : Idle .exporter i (b.dropEvents i .terminate) := .of_dropEvents b (.inl nofun)
    rw [Bridge.dropped_dropEvents, h.dropped, List.nil_append]

/-! ## What is run has not been dropped -/

/-- Every run is of a closure that has been given and not been dropped: the first of those. -/
def RunsHeld (slot : Slot) (i : Nat) (trace : List Event) : Prop :=
  ∀ before e after tag, trace = before ++ e :: after → e.runs? slot i = some tag →
    ∃ rest, taken slot i before = dropped slot i before ++ tag :: rest

namespace RunsHeld

variable {trace events : List Event}

theorem append (h : RunsHeld slot i trace)
    (hr : ∀ before e after tag, events = before ++ e :: after → e.runs? slot i = some tag →
      ∃ rest, taken slot i (trace ++ before) = dropped slot i (trace ++ before) ++ tag :: rest) :
    RunsHeld slot i (trace ++ events) := by
  intro before e after tag he htag
  rcases old_or_new he with ⟨rest, htr, -⟩ | ⟨mid, rfl, hev⟩
  · exact h before e rest tag htr htag
  · exact hr mid e after tag hev htag

/-- Closures may change hands where none is run. -/
theorem append_of_ran_nil (h : RunsHeld slot i trace) (hn : ran slot i events = []) :
    RunsHeld slot i (trace ++ events) := by
  refine h.append ?_
  intro before e after tag he htag
  have hmem : tag ∈ ran slot i events := by
    rw [he, ran_append]
    exact List.mem_append_right _ (List.mem_filterMap.mpr ⟨e, List.mem_cons_self, htag⟩)
  rw [hn] at hmem
  cases hmem

/-- A closure may be run where none changes hands. -/
theorem append_of_idle (h : RunsHeld slot i trace) (hi : Idle slot i events)
    (hr : ∀ tag ∈ ran slot i events, ∃ rest, taken slot i trace = dropped slot i trace ++ tag :: rest) :
    RunsHeld slot i (trace ++ events) := by
  refine h.append ?_
  intro before e after tag he htag
  have hb : Idle slot i before := fun x hx => hi x (he ▸ List.mem_append_left _ hx)
  rw [taken_append, dropped_append, hb.taken, hb.dropped, List.append_nil, List.append_nil]
  refine hr tag (List.mem_filterMap.mpr ⟨e, ?_, htag⟩)
  rw [he]
  exact List.mem_append_right _ List.mem_cons_self

end RunsHeld

/-! ## The custody of a client -/

/-- The closure in a slot of the solver `i`, by its tag. -/
def Client.held (slot : Slot) (i : Nat) (c : Client) : List String :=
  ((c.occupant slot i).map (·.closure.tag)).toList

/-- The closures given for a slot of the solver `i` are those that have been dropped, the one that is
held, and those which are still to be settled. -/
structure Client.Custody (slot : Slot) (i : Nat) (given pending : List String) (c : Client) :
    Prop where
  taken : taken slot i c.trace = given
  balance : given = dropped slot i c.trace ++ c.held slot i ++ pending
  runs : RunsHeld slot i c.trace

namespace Client.Custody

variable {given pending : List String} {c c' : Client} {events : List Event}

/-- The slot is left alone. -/
theorem steady {regs : List (Registration × Code)} (h : Custody slot i given pending c)
    (hs : Steady slot i regs c c') (ht : c'.trace = c.trace ++ events) (hi : Idle slot i events) :
    Custody slot i given pending c' := by
  obtain ⟨-, ⟨n, hn⟩, events', ht', -, hran⟩ := hs
  have hev : events' = events := List.append_cancel_left (ht'.symm.trans ht)
  rw [hev] at hran
  have hheld : c'.held slot i = c.held slot i := by
    rw [held, hn, Option.map_map]
    rfl
  constructor
  · rw [ht, taken_append, hi.taken, List.append_nil, h.taken]
  · rw [ht, dropped_append, hi.dropped, List.append_nil, hheld, ← h.balance]
  · rw [ht]
    refine h.runs.append_of_idle hi ?_
    intro tag htag
    obtain ⟨o, ho, rfl⟩ := hran tag htag
    refine ⟨pending, ?_⟩
    rw [h.taken, h.balance, held, ho, List.append_assoc]
    rfl

theorem note (h : Custody slot i given pending c) (hi : Idle slot i events)
    (hr : ran slot i events = []) : Custody slot i given pending (c.note events) :=
  h.steady (.note c rfl hr) rfl hi

/-- A closure is given. -/
theorem take (h : Custody slot i given pending c) (tag : String) :
    Custody slot i (given ++ [tag]) (pending ++ [tag]) (c.note [.taken i slot tag]) := by
  have ht : SatClient.taken slot i [.taken i slot tag] = [tag] := by
    simp [SatClient.taken, Event.taken?]
  have hd : dropped slot i [.taken i slot tag] = [] := rfl
  constructor
  · rw [Client.note, taken_append, ht, h.taken]
  · rw [Client.note, dropped_append, hd, List.append_nil, ← List.append_assoc, h.balance]
    rfl
  · exact h.runs.append_of_ran_nil rfl

/-- A closure that could not be registered is dropped. -/
theorem drop {tag : String} (h : Custody slot i given (tag :: pending) c) (hn : c.held slot i = []) :
    Custody slot i given pending (c.note [.dropped i slot tag]) := by
  have hd : dropped slot i [.dropped i slot tag] = [tag] := by
    simp [dropped, Event.dropped?]
  have hheld : (c.note [.dropped i slot tag]).held slot i = [] := hn
  constructor
  · rw [Client.note, taken_append, h.taken]
    exact List.append_nil _
  · rw [hheld, Client.note, dropped_append, hd, h.balance, hn]
    simp
  · exact h.runs.append_of_ran_nil rfl

/-- A slot is filled with a closure that was to be settled, or emptied; what was in it is dropped. -/
theorem settle {b b' : Bridge} {o : Option Occupant}
    (h : Custody slot i given ((o.map (·.closure.tag)).toList ++ pending) c)
    (hb : c.bridges.get? i = some b) (ho : b'.occupant slot = o) :
    Custody slot i given pending ((c.setBridge i b').note (b.dropEvents i slot)) := by
  obtain ⟨-, hn⟩ := slot_of_givesBack slot i (b.dropEvents_givesBack i slot)
  have hheld : c.held slot i = ((b.occupant slot).map (·.closure.tag)).toList := by
    rw [held, occupant, hb]
    rfl
  have hheld' : ((c.setBridge i b').note (b.dropEvents i slot)).held slot i =
      (o.map (·.closure.tag)).toList := by
    rw [held, occupant, show ((c.setBridge i b').note _).bridges.get? i = some b' from
      Keyed.get?_set_self _ _ _, Option.bind_some, ho]
  have htr : ((c.setBridge i b').note (b.dropEvents i slot)).trace = c.trace ++ b.dropEvents i slot := rfl
  constructor
  · rw [htr, taken_append, h.taken, List.append_right_eq_self]
    refine List.filterMap_eq_nil_iff.mpr ?_
    intro e he
    cases b.dropEvents_givesBack i slot e he <;> rfl
  · rw [htr, hheld', dropped_append, Bridge.dropped_dropEvents, h.balance, hheld]
    simp only [List.append_assoc]
  · rw [htr]
    exact h.runs.append_of_ran_nil hn

/-- A slot is emptied, and with it goes a closure that could not be registered. -/
theorem refuse {b b' : Bridge} {tag : String} (h : Custody slot i given (tag :: pending) c)
    (hb : c.bridges.get? i = some b) (ho : b'.occupant slot = none) :
    Custody slot i given pending
      (((c.setBridge i b').note (b.dropEvents i slot)).note [.dropped i slot tag]) := by
  have hs : Custody slot i given (tag :: pending) ((c.setBridge i b').note (b.dropEvents i slot)) :=
    h.settle hb ho
  refine hs.drop ?_
  rw [held, occupant, show ((c.setBridge i b').note _).bridges.get? i = some b' from
    Keyed.get?_set_self _ _ _, Option.bind_some, ho]
  rfl

/-- The bridge of another solver changes. -/
theorem setBridge {j : Nat} (b : Bridge) (h : Custody slot i given pending c) (hj : j ≠ i) :
    Custody slot i given pending (c.setBridge j b) :=
  h.steady (.setBridge b hj) (List.append_nil _).symm .nil

/-- A new solver has empty slots. -/
theorem opened {w : World σ} (h : Custody slot i given pending w.client) (handle : Handle)
    (hn : w.nextIdentity ∉ w.client.bridges.keys) :
    Custody slot i given pending (w.opened handle).client := by
  have hi : Idle slot i [.opened w.nextIdentity handle] := .singleton rfl rfl
  by_cases hj : w.nextIdentity = i
  · have hb : w.client.bridges.get? i = none := (Keyed.get?_eq_none_iff _ _).mpr (hj ▸ hn)
    have hb' : (w.opened handle).client.bridges.get? i = some {} := by
      rw [← hj]
      exact Keyed.get?_set_self _ _ _
    have ht : (w.opened handle).client.trace = w.client.trace ++ [.opened w.nextIdentity handle] := rfl
    have hheld : (w.opened handle).client.held slot i = w.client.held slot i := by
      rw [held, held, occupant, occupant, hb, hb']
      cases slot <;> rfl
    constructor
    · rw [ht, taken_append, hi.taken, List.append_nil, h.taken]
    · rw [ht, dropped_append, hi.dropped, List.append_nil, hheld, ← h.balance]
    · rw [ht]
      exact h.runs.append_of_ran_nil rfl
  · exact (h.setBridge {} hj).note hi rfl

/-- A solver ends: what its slots hold is dropped. -/
theorem closed {f : Focus σ} (h : Custody slot i given pending f.world.client)
    (hk : f.world.client.bridges.keys.Nodup)
    (hb : f.solver.identity ∈ f.world.client.bridges.keys) :
    Custody slot i given pending (Solver.close f).client := by
  let b := f.bridge
  let j := f.solver.identity
  let events := b.dropEvents j .terminate ++ b.dropEvents j .exporter ++ b.discardEvents j ++ [.closed j]
  have ht : (Solver.close f).client.trace = f.world.client.trace ++ events := rfl
  have hg : (Solver.close f).client.bridges.get? i =
      if j = i then none else f.world.client.bridges.get? i := Keyed.get?_erase hk _ _
  obtain ⟨rest, hrest, hback⟩ := Solver.close_trace f
  have hev : rest = events := List.append_cancel_left (hrest.symm.trans ht)
  rw [hev] at hback
  have htaken : SatClient.taken slot i events = [] := by
    refine List.filterMap_eq_nil_iff.mpr ?_
    intro e he
    cases hback e he <;> rfl
  by_cases hj : j = i
  · have hbi : f.world.client.bridges.get? i = some b := hj ▸ Focus.get?_bridge hb
    have hheld : f.world.client.held slot i = ((b.occupant slot).map (·.closure.tag)).toList := by
      rw [held, occupant, hbi]
      rfl
    have hheld' : (Solver.close f).client.held slot i = [] := by
      rw [held, occupant, hg, if_pos hj]
      rfl
    have hdrop : dropped slot i events = ((b.occupant slot).map (·.closure.tag)).toList := by
      simp only [events, hj]
      exact b.dropped_ending
    constructor
    · rw [ht, taken_append, htaken, List.append_nil, h.taken]
    · rw [ht, hheld', dropped_append, hdrop, h.balance, hheld, List.append_nil]
    · rw [ht]
      exact h.runs.append_of_ran_nil (slot_of_givesBack slot i hback).2
  · have hi : Idle slot i events := by
      refine .of_owner? ?_
      intro e he
      rw [(hback e he).owner?]
      exact fun h => hj (Option.some.inj h)
    refine h.steady ⟨?_, ⟨0, ?_⟩, events, ht, (slot_of_givesBack slot i hback).1, ?_⟩ ht hi
    · rw [hg, if_neg hj]
    · rw [occupant, hg, if_neg hj, ← occupant]
      cases f.world.client.occupant slot i <;> rfl
    · rw [(slot_of_givesBack slot i hback).2]
      exact List.forall_mem_nil _

end Client.Custody

/-! ## Calls and moves -/

theorem World.call_idle (owner : Option Nat) (a : Address) (c : Call) (w : World σ) (slot : Slot)
    (i : Nat) :
    ∃ events, (w.call N owner a c).2.client.trace = w.client.trace ++ events ∧ Idle slot i events := by
  obtain ⟨events, ht, hv⟩ := World.call_events N owner a c w
  have hc : Idle slot i [.called owner a c] := .singleton rfl rfl
  have hr : Idle slot i [.returned owner c (w.call N owner a c).1] := .singleton rfl rfl
  exact ⟨_, ht, (hc.append (.of_ofVisit hv)).append hr⟩

theorem World.call_custody {given pending : List String} (owner : Option Nat) (a : Address) (c : Call)
    {w : World σ} (h : Client.Custody slot i given pending w.client) :
    Client.Custody slot i given pending (w.call N owner a c).2.client := by
  obtain ⟨events, ht, hi⟩ := World.call_idle (N := N) owner a c w slot i
  exact h.steady (World.call_steady owner a c w slot i) ht hi

theorem Solver.Move.idle {f f' : Focus σ} (h : Solver.Move N es f f')
    (hs : slot.entry ∉ es ∨ f.solver.identity ≠ i) :
    ∃ events, f'.world.client.trace = f.world.client.trace ++ events ∧ Idle slot i events := by
  have hown {slot' : Slot} (he : slot'.entry ∈ es) : slot' ≠ slot ∨ f.solver.identity ≠ i := by
    refine hs.imp_left ?_
    rintro h rfl
    exact h he
  have hne {slot' : Slot} (he : slot'.entry ∈ es) : ¬ (slot' = slot ∧ f.solver.identity = i) :=
    fun h => (hown he).elim (· h.1) (· h.2)
  cases h with
  | tell n => exact ⟨_, rfl, .singleton rfl rfl⟩
  | buffer b => exact ⟨[], (List.append_nil _).symm, .nil⟩
  | options he => exact ⟨[], (List.append_nil _).symm, .nil⟩
  | call he hc => exact World.call_idle _ _ _ _ _ _
  | resume he hp => exact ⟨_, rfl, .singleton rfl rfl⟩
  | take he => exact ⟨_, rfl, .singleton (if_neg (hne he)) rfl⟩
  | drop he => exact ⟨_, rfl, .singleton rfl (if_neg (hne he))⟩
  | settleTerminate he => exact ⟨_, rfl, .of_dropEvents f.bridge (@hown .terminate he)⟩
  | settleExporter he => exact ⟨_, rfl, .of_dropEvents f.bridge (@hown .exporter he)⟩

theorem Solver.Move.custody {given pending : List String} {f f' : Focus σ}
    (h : Solver.Move N es f f') (hb : f.solver.identity ∈ f.world.client.bridges.keys)
    (hs : slot.entry ∉ es ∨ f.solver.identity ≠ i)
    (hc : Client.Custody slot i given pending f.world.client) :
    Client.Custody slot i given pending f'.world.client := by
  obtain ⟨events, ht, hi⟩ := h.idle hs
  exact hc.steady (h.steady hb hs) ht hi

theorem Solver.Moves.custody {n : Nat} {given pending : List String} {f f' : Focus σ}
    (h : Solver.Moves N es f f') (hn : ∀ j ∈ f.world.client.bridges.keys, j < n)
    (hb : f.solver.identity ∈ f.world.client.bridges.keys)
    (hs : slot.entry ∉ es ∨ f.solver.identity ≠ i)
    (hc : Client.Custody slot i given pending f.world.client) :
    Client.Custody slot i given pending f'.world.client := by
  induction h with
  | refl => exact hc
  | tail hms hm ih =>
    have hid := (Solver.Moves.solver_eq hms).1
    refine hm.custody ?_ ?_ ih
    · rw [(Solver.Moves.keeps hms hn hb).keys, hid]
      exact hb
    · rw [hid]
      exact hs

/-- **A move that is not for the slot drops nothing, unless a solver ends.** -/
theorem Stage.Move.custody {given : List String} {st st' : Stage σ} (h : Stage.Move N es st st')
    (hs : st.Sound) (he : slot.entry ∉ es)
    (hc : Client.Custody slot i given [] st.world.client) :
    Client.Custody slot i given [] st'.world.client := by
  cases h with
  | tell n => exact hc.note (.singleton rfl rfl) rfl
  | unload => exact hc.note (.singleton rfl rfl) rfl
  | ask ha hn => exact World.call_custody _ _ _ hc
  | operate hk h => exact h.custody (hs.bridge_of_get? hk) (.inl he) hc
  | beget hi hn => exact hc.opened _ fun hm => Nat.lt_irrefl _ (hs.fresh _ hm)
  | keep hn hk => exact hc
  | @finish key solver events hrel hk ht =>
    have hidle : Idle slot i events := .of_notices ht
    have hran : ran slot i events = [] := (slot_of_owner? slot i fun e hm => by
      obtain ⟨n, rfl⟩ := ht e hm
      exact nofun).2
    have hsound := hs.asked (N := N) hk ht
    exact ((World.call_custody _ _ _ hc).note hidle hran).closed hsound.bridges
      (hsound.bridge_of_get? hk)

theorem Stage.Moves.custody {given : List String} {st st' : Stage σ} (h : Stage.Moves N es st st')
    (hs : st.Sound) (he : slot.entry ∉ es) (hc : Client.Custody slot i given [] st.world.client) :
    Client.Custody slot i given [] st'.world.client :=
  Stage.Moves.induct (P := fun st => Client.Custody slot i given [] st.world.client)
    (fun _ _ hm hst hp => hm.custody hst he hp) h hs hc

/-! ## The end of a solver -/

/-- Nothing is dropped from a slot of the solver `i` before its release has returned. -/
def Parting (slot : Slot) (i : Nat) (events : List Event) : Prop :=
  ∀ before tag after, events = before ++ .dropped i slot tag :: after →
    ∃ h reply, .returned (some i) (.release h) reply ∈ before

theorem Idle.parting {events : List Event} (h : Idle slot i events) : Parting slot i events := by
  intro before tag after he
  have hd := (h (.dropped i slot tag) (he ▸ List.mem_append_right _ List.mem_cons_self)).2
  rw [Event.dropped?, if_pos ⟨rfl, rfl⟩] at hd
  cases hd

theorem Parting.append {events events' : List Event} (h : Parting slot i events)
    (h' : Parting slot i events') : Parting slot i (events ++ events') := by
  intro before tag after he
  rcases old_or_new he with ⟨rest, hev, -⟩ | ⟨mid, rfl, hev⟩
  · exact h before tag rest hev
  · obtain ⟨handle, reply, hm⟩ := h' mid tag after hev
    exact ⟨handle, reply, List.mem_append_right _ hm⟩

/-- Once the release has returned, anything may be dropped. -/
theorem Idle.parting_of_returned {events events' : List Event} {handle : Handle} {reply : Reply}
    (h : Idle slot i events) (hm : .returned (some i) (.release handle) reply ∈ events) :
    Parting slot i (events ++ events') := by
  intro before tag after he
  rcases old_or_new he with ⟨rest, hev, -⟩ | ⟨mid, rfl, -⟩
  · exact h.parting before tag rest hev
  · exact ⟨handle, reply, List.mem_append_left _ hm⟩

/-- **Where nothing is registered, what is dropped is dropped after a release.** -/
theorem Stage.Move.parts {st st' : Stage σ} (h : Stage.Move N es st st') (he : slot.entry ∉ es)
    (i : Nat) :
    ∃ events, st'.world.client.trace = st.world.client.trace ++ events ∧ Parting slot i events := by
  cases h with
  | tell n => exact ⟨_, rfl, (Idle.singleton rfl rfl).parting⟩
  | unload => exact ⟨_, rfl, (Idle.singleton rfl rfl).parting⟩
  | ask ha hn =>
    obtain ⟨events, ht, hi⟩ := World.call_idle (N := N) none _ _ st.world slot i
    exact ⟨events, ht, hi.parting⟩
  | operate hk h =>
    obtain ⟨events, ht, hi⟩ := h.idle (i := i) (.inl he)
    exact ⟨events, ht, hi.parting⟩
  | beget hi hn => exact ⟨_, rfl, (Idle.singleton rfl rfl).parting⟩
  | keep hn hk => exact ⟨[], (List.append_nil _).symm, Idle.nil.parting⟩
  | @finish key solver notices hrel hk ht =>
    let c : Call := .release solver.handle
    let called := (⟨solver, st.world⟩ : Focus σ).call N c
    obtain ⟨visits, hc, hv⟩ :=
      World.call_events N (some solver.identity) (solver.symbols c.entry) c st.world
    let release : List Event := [.called (some solver.identity) (solver.symbols c.entry) c] ++ visits ++
      [.returned (some solver.identity) c called.1]
    have hr : Idle slot i release :=
      ((Idle.singleton rfl rfl).append (.of_ofVisit hv)).append (.singleton rfl rfl)
    obtain ⟨rest, hrest, hback⟩ := Solver.close_trace (called.2.note notices)
    refine ⟨release ++ notices ++ rest, ?_, ?_⟩
    · rw [hrest, ← List.append_assoc, ← List.append_assoc]
      exact congrArg (· ++ notices ++ rest) hc
    · have hnote : Idle slot i notices := .of_notices ht
      by_cases hi : solver.identity = i
      · have hm : .returned (some i) (.release solver.handle) called.1 ∈ release ++ notices := by
          simp [release, c, hi]
        exact (hr.append hnote).parting_of_returned hm
      · refine ((hr.append hnote).append (.of_owner? ?_)).parting
        intro e hm
        rw [(hback e hm).owner?]
        exact fun h => hi (Option.some.inj h)

theorem Stage.Moves.parts {st st' : Stage σ} (h : Stage.Moves N es st st') (he : slot.entry ∉ es)
    (i : Nat) :
    ∃ events, st'.world.client.trace = st.world.client.trace ++ events ∧ Parting slot i events := by
  induction h with
  | refl => exact ⟨[], (List.append_nil _).symm, Idle.nil.parting⟩
  | tail _ hm ih =>
    obtain ⟨events, ht, hp⟩ := ih
    obtain ⟨events', ht', hp'⟩ := hm.parts he i
    exact ⟨events ++ events', by rw [ht', ht, List.append_assoc], hp.append hp'⟩

/-! ## The four operations -/

namespace Solver

variable {given pending : List String} {f g g' : Focus σ}

/-- The bridge of the solver at hand is there. -/
def Linked (f : Focus σ) : Prop := f.world.client.bridges.get? f.solver.identity = some f.bridge

/-- The native solver has been called, and the code has been told. -/
theorem Linked.called (h : Linked f) (c : Call) (n : Notice) : Linked ((f.call N c).2.note [.notice n]) := by
  have ht := (World.call_steady (N := N) (some f.solver.identity) (f.solver.symbols c.entry) c f.world
    .terminate f.solver.identity).there
  rw [h] at ht
  have hm : f.solver.identity ∈ (f.call N c).2.world.client.bridges.keys :=
    (Keyed.mem_keys_iff _ _).mpr (Option.isSome_iff_exists.mp ht)
  exact Focus.get?_bridge (f := (f.call N c).2) hm

theorem custody_called (h : Client.Custody slot i given pending f.world.client) (c : Call) (n : Notice) :
    Client.Custody slot i given pending ((f.call N c).2.note [.notice n]).world.client := by
  have hc : Client.Custody slot i given pending (f.call N c).2.world.client :=
    World.call_custody _ _ c h
  exact hc.note (.singleton rfl rfl) rfl

/-- A slot of the solver at hand is filled or emptied, and what was in it is dropped. -/
def Fills (slot : Slot) (o : Option Occupant) (f f' : Focus σ) : Prop :=
  ∃ b', b'.occupant slot = o ∧ f'.world.client =
    (f.world.client.setBridge f.solver.identity b').note (f.bridge.dropEvents f.solver.identity slot)

theorem fills_terminate (closure : Option Closure) (f : Focus σ) :
    Fills .terminate (closure.map (⟨·, none⟩)) f (settledTerminate closure f) :=
  ⟨{ f.bridge with terminate := closure }, rfl, rfl⟩

theorem fills_exporter (listener : Option Listener) (f : Focus σ) :
    Fills .exporter (listener.map fun l => ⟨l.closure, some l.form⟩) f (settledExporter listener f) :=
  ⟨{ f.bridge with exporter := listener, converted := [] }, rfl, rfl⟩

theorem Fills.custody {o : Option Occupant} (hf : Fills slot o f g) (hl : Linked f)
    (h : Client.Custody slot f.solver.identity given ((o.map (·.closure.tag)).toList ++ pending)
      f.world.client) :
    Client.Custody slot f.solver.identity given pending g.world.client := by
  obtain ⟨b', ho, hg⟩ := hf
  rw [hg]
  exact h.settle hl ho

/-- With what was in the slot goes a closure that could not be registered. -/
theorem Fills.custody_refuse {tag : String} (hf : Fills slot none f g) (hl : Linked f)
    (h : Client.Custody slot f.solver.identity given (tag :: pending) f.world.client) :
    Client.Custody slot f.solver.identity given pending
      (g.note [.dropped f.solver.identity slot tag]).world.client := by
  obtain ⟨b', ho, hg⟩ := hf
  show Client.Custody slot f.solver.identity given pending (g.world.client.note _)
  rw [hg]
  exact h.refuse hl ho

theorem custody_check (h : Client.Custody slot i given pending f.world.client) (e : EntryPoint)
    (code : Code) : Client.Custody slot i given pending (check e code f).2.world.client := by
  rw [check_apply]
  split_ifs
  · exact h
  · exact h.note (.singleton rfl rfl) rfl

/-- An operation that keeps the closures in custody, with those given to it in `tags`. -/
def Hands (slot : Slot) (tags : List String) (x : Act (Focus σ) Unit) : Prop :=
  ∀ f given, Linked f → Client.Custody slot f.solver.identity given [] f.world.client →
    Client.Custody slot f.solver.identity (given ++ tags) [] (x f).2.world.client

theorem hands_setTerminate (closure : Closure) :
    Hands .terminate [closure.tag] (setTerminate N closure) := by
  intro f given hl h
  let taken := f.note [.taken f.solver.identity .terminate closure.tag]
  let c : Call := .setTerminate f.solver.handle (some f.solver.identity) (some .trampoline)
  let told := (taken.call N c).2.note [.notice (.setTerminate (taken.call N c).1.code)]
  have ht : Client.Custody .terminate f.solver.identity (given ++ [closure.tag]) [closure.tag]
      taken.world.client := h.take closure.tag
  have htold : Client.Custody .terminate f.solver.identity (given ++ [closure.tag]) [closure.tag]
      told.world.client := custody_called ht c _
  have hl : Linked taken := hl
  have hltold : Linked told := hl.called c _
  rw [setTerminate_apply]
  dsimp only
  split_ifs with hb hok
  · have hn : Client.Custody .terminate f.solver.identity (given ++ [closure.tag]) [closure.tag]
        (taken.note [.notice .replaced]).world.client := ht.note (.singleton rfl rfl) rfl
    exact (fills_terminate (some closure) (taken.note [.notice .replaced])).custody hl hn
  · exact (fills_terminate (some closure) told).custody hltold htold
  · exact custody_check ((fills_terminate none told).custody_refuse hltold htold) _ _

theorem hands_clearTerminate : Hands (σ := σ) .terminate [] (clearTerminate N) := by
  intro f given hl h
  let c : Call := .setTerminate f.solver.handle none none
  let told := (f.call N c).2.note [.notice (.clearedTerminate (f.call N c).1.code)]
  have htold : Client.Custody .terminate f.solver.identity given [] told.world.client :=
    custody_called h c _
  rw [List.append_nil, clearTerminate_apply]
  exact custody_check ((fills_terminate none told).custody (hl.called c _) htold) _ _

theorem hands_setExport (listener : Listener) (maxLength : Int32) :
    Hands .exporter [listener.closure.tag] (setExport N listener maxLength) := by
  intro f given hl h
  let taken := f.note [.taken f.solver.identity .exporter listener.closure.tag]
  let c : Call :=
    .setExport f.solver.handle (some f.solver.identity) maxLength (some .trampoline)
  let told := (taken.call N c).2.note [.notice (.setExport maxLength (taken.call N c).1.code)]
  have htold : Client.Custody .exporter f.solver.identity (given ++ [listener.closure.tag])
      [listener.closure.tag] told.world.client := custody_called (h.take listener.closure.tag) c _
  have hl : Linked taken := hl
  have hltold : Linked told := hl.called c _
  rw [setExport_apply]
  dsimp only
  split_ifs with hok
  · exact (fills_exporter (some listener) told).custody hltold htold
  · exact custody_check ((fills_exporter none told).custody_refuse hltold htold) _ _

theorem hands_clearExport : Hands (σ := σ) .exporter [] (clearExport N) := by
  intro f given hl h
  let c : Call := .setExport f.solver.handle none 0 none
  let told := (f.call N c).2.note [.notice (.clearedExport (f.call N c).1.code)]
  have htold : Client.Custody .exporter f.solver.identity given [] told.world.client :=
    custody_called h c _
  rw [List.append_nil, clearExport_apply]
  exact custody_check ((fills_exporter none told).custody (hl.called c _) htold) _ _

end Solver

/-- A step that is to register something is an operation that keeps the closures in custody. -/
theorem Step.hands {action : Step} {key : Int} {e : Option Enrolment}
    (ha : action.registers? = some (key, slot, e)) (N : Native σ) :
    ∃ x : Act (Focus σ) Unit, (∀ s : Session σ, s.step N action = s.runOn key x .ofUnit) ∧
      Solver.Hands slot (e.map (·.occupant.closure.tag)).toList x ∧
      ∀ f, Solver.Moves N [slot.entry] f (x f).2 := by
  cases action with
  | setTerminate k closure =>
    cases ha
    exact ⟨_, fun _ => rfl, Solver.hands_setTerminate closure, Solver.moves_setTerminate closure⟩
  | clearTerminate k =>
    cases ha
    exact ⟨_, fun _ => rfl, Solver.hands_clearTerminate, Solver.moves_clearTerminate⟩
  | setExport k listener maxLength =>
    cases ha
    exact ⟨_, fun _ => rfl, Solver.hands_setExport listener maxLength,
      Solver.moves_setExport listener maxLength⟩
  | clearExport k =>
    cases ha
    exact ⟨_, fun _ => rfl, Solver.hands_clearExport, Solver.moves_clearExport⟩
  | _ => cases ha

end SatClient
