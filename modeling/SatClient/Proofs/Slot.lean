import SatClient.Proofs.Roster

/-!
# The slots of a bridge

What is in a slot changes by registration alone. Calling back runs it, and nothing else touches it.

* `Occupant`, `Bridge.occupant`: what is in a slot, for both slots alike
* `Registration`, `registrations`: the calls by which a solver was told what to call back
* `ran`: the closures that were run from a slot
* `Client.Steady`: the slot of a solver holds what it held, but for runs of it
* `Solver.Move.steady`: no move of another solver, and none that calls another function, touches it
-/

namespace SatClient

variable {σ α : Type} {N : Native σ} {es : List EntryPoint} {slot : Slot} {i : Nat}

/-! ## Occupants and registrations -/

/-- What is in a slot: a closure, and the form in which it takes clauses if it takes them. -/
structure Occupant where
  closure : Closure
  form : Option LiteralForm
  deriving DecidableEq

def Occupant.ranOn (n : Nat) (o : Occupant) : Occupant :=
  { o with closure := { o.closure with runs := o.closure.runs + n } }

/-- What is in a slot of a bridge. -/
def Bridge.occupant (b : Bridge) : Slot → Option Occupant
  | .terminate => b.terminate.map fun c => ⟨c, none⟩
  | .exporter => b.exporter.map fun l => ⟨l.closure, some l.form⟩

def Client.occupant (slot : Slot) (i : Nat) (c : Client) : Option Occupant :=
  (c.bridges.get? i).bind (·.occupant slot)

/-- What a call tells a solver to call back; for clauses there is a greatest length. -/
structure Registration where
  data : Option Nat
  callback : Option Callback
  maxLength : Option Int32
  deriving DecidableEq

/-- What a call registers in a slot. -/
def Call.registers? : Slot → Call → Option Registration
  | .terminate, setTerminate _ data callback => some ⟨data, callback, none⟩
  | .exporter, setExport _ data maxLength callback => some ⟨data, callback, some maxLength⟩
  | _, _ => none

/-- What an event registers in a slot for the solver `i`, with the code that is returned. -/
def Event.registers? (slot : Slot) (i : Nat) : Event → Option (Registration × Code)
  | returned owner c reply =>
    if owner = some i then (c.registers? slot).map (·, reply.code) else none
  | _ => none

/-- The calls that register in a slot for the solver `i`, with their codes. -/
def registrations (slot : Slot) (i : Nat) (trace : List Event) : List (Registration × Code) :=
  trace.filterMap (Event.registers? slot i)

/-- The closure that an event runs from a slot of the solver `i`. -/
def Event.runs? (slot : Slot) (i : Nat) : Event → Option String
  | asked j tag => if slot = .terminate ∧ j = i then some tag else none
  | heard j tag _ => if slot = .exporter ∧ j = i then some tag else none
  | _ => none

/-- The closures that were run from a slot of the solver `i`. -/
def ran (slot : Slot) (i : Nat) (trace : List Event) : List String :=
  trace.filterMap (Event.runs? slot i)

@[simp] theorem registrations_append (l l' : List Event) :
    registrations slot i (l ++ l') = registrations slot i l ++ registrations slot i l' :=
  List.filterMap_append

@[simp] theorem ran_append (l l' : List Event) : ran slot i (l ++ l') = ran slot i l ++ ran slot i l' :=
  List.filterMap_append

theorem Call.registers?_entry {c : Call} {r : Registration} (h : c.registers? slot = some r) :
    c.entry = slot.entry := by
  cases slot <;> cases c <;> first | rfl | cases h

theorem Occupant.ranOn_ranOn (n m : Nat) (o : Occupant) : (o.ranOn n).ranOn m = o.ranOn (n + m) := by
  simp only [ranOn, Nat.add_assoc]

/-! ## Changes that leave a slot alone -/

/-- The slot of the solver `i` holds what it held, but for runs of it; the calls in `regs` register
something. -/
structure Client.Steady (slot : Slot) (i : Nat) (regs : List (Registration × Code)) (c c' : Client) :
    Prop where
  there : (c'.bridges.get? i).isSome = (c.bridges.get? i).isSome
  holds : ∃ n, c'.occupant slot i = (c.occupant slot i).map (Occupant.ranOn n)
  events : ∃ events, c'.trace = c.trace ++ events ∧ registrations slot i events = regs ∧
    ∀ tag ∈ ran slot i events, ∃ o, c.occupant slot i = some o ∧ o.closure.tag = tag

namespace Client.Steady

variable {regs regs' : List (Registration × Code)} {c c' c'' : Client}

theorem refl (slot : Slot) (i : Nat) (c : Client) : Steady slot i [] c c := by
  refine ⟨rfl, ⟨0, ?_⟩, [], by simp, rfl, nofun⟩
  cases c.occupant slot i <;> rfl

theorem trans (h : Steady slot i regs c c') (h' : Steady slot i regs' c' c'') :
    Steady slot i (regs ++ regs') c c'' := by
  obtain ⟨ht, ⟨n, hs⟩, events, he, hr, hran⟩ := h
  obtain ⟨ht', ⟨m, hs'⟩, events', he', hr', hran'⟩ := h'
  refine ⟨ht'.trans ht, ⟨n + m, ?_⟩, events ++ events', ?_, ?_, ?_⟩
  · rw [hs', hs, Option.map_map]
    congr 1
    funext o
    exact o.ranOn_ranOn n m
  · rw [he', he, List.append_assoc]
  · rw [registrations_append, hr, hr']
  · intro tag htag
    rw [ran_append] at htag
    rcases List.mem_append.mp htag with htag | htag
    · exact hran tag htag
    · obtain ⟨o', ho', rfl⟩ := hran' tag htag
      rw [hs] at ho'
      obtain ⟨o, ho, rfl⟩ := Option.map_eq_some_iff.mp ho'
      exact ⟨o, ho, rfl⟩

theorem note {events : List Event} (c : Client) (hr : registrations slot i events = regs)
    (hn : ran slot i events = []) : Steady slot i regs c (c.note events) := by
  refine ⟨rfl, ⟨0, ?_⟩, events, rfl, hr, ?_⟩
  · show c.occupant slot i = _
    cases c.occupant slot i <;> rfl
  · rw [hn]
    exact nofun

theorem setBridge {j : Nat} (b : Bridge) (hj : j ≠ i) : Steady slot i [] c (c.setBridge j b) := by
  have hg : (c.setBridge j b).bridges.get? i = c.bridges.get? i := Keyed.get?_set_of_ne _ _ hj
  refine ⟨by rw [hg], ⟨0, ?_⟩, [], by simp [Client.setBridge], rfl, nofun⟩
  rw [occupant, hg, ← occupant]
  cases c.occupant slot i <;> rfl

/-- The bridge of the solver changes, but not the slot, except by runs. -/
theorem change {b b' : Bridge} {events : List Event} {n : Nat} (hb : c.bridges.get? i = some b)
    (ho : b'.occupant slot = (b.occupant slot).map (Occupant.ranOn n))
    (hr : registrations slot i events = regs)
    (hran : ∀ tag ∈ ran slot i events, ∃ o, b.occupant slot = some o ∧ o.closure.tag = tag) :
    Steady slot i regs c ((c.setBridge i b').note events) := by
  have hg : ((c.setBridge i b').note events).bridges.get? i = some b' := Keyed.get?_set_self _ _ _
  have hc : c.occupant slot i = b.occupant slot := by rw [occupant, hb, Option.bind_some]
  refine ⟨by rw [hg, hb]; rfl, ⟨n, ?_⟩, events, rfl, hr, ?_⟩
  · rw [occupant, hg, hc]
    exact ho
  · rw [hc]
    exact hran

end Client.Steady

/-! ## Visits and calls -/

/-- What a visit does to a slot. -/
structure Bridge.Spares (slot : Slot) (i : Nat) (b b' : Bridge) (events : List Event) : Prop where
  holds : ∃ n, b'.occupant slot = (b.occupant slot).map (Occupant.ranOn n)
  registrations : registrations slot i events = []
  ran : ∀ tag ∈ ran slot i events, ∃ o, b.occupant slot = some o ∧ o.closure.tag = tag

theorem Bridge.spares_of_eq {b b' : Bridge} {events : List Event}
    (ho : b'.occupant slot = b.occupant slot) (hr : registrations slot i events = [])
    (hn : SatClient.ran slot i events = []) : Bridge.Spares slot i b b' events := by
  refine ⟨⟨0, ?_⟩, hr, ?_⟩
  · rw [ho]
    cases b.occupant slot <;> rfl
  · rw [hn]
    exact nofun

/-- **A visit to a bridge runs what is in its slots, and does nothing else to them.** -/
theorem Bridge.Visit.spares {b b' : Bridge} {events : List Event} (h : Bridge.Visit i b events b')
    (slot : Slot) : Bridge.Spares slot i b b' events := by
  cases h with
  | idle => exact spares_of_eq rfl rfl rfl
  | asked hf hc =>
    cases slot with
    | exporter => exact spares_of_eq rfl rfl rfl
    | terminate =>
      refine ⟨⟨1, ?_⟩, rfl, ?_⟩ <;> simp [occupant, hc, ran, Event.runs?]
      rfl
  | askedInVain p hf hc =>
    cases slot with
    | exporter => exact spares_of_eq rfl rfl rfl
    | terminate =>
      refine ⟨⟨1, ?_⟩, rfl, ?_⟩ <;> simp [occupant, hc, ran, Event.runs?, List.filterMap_cons]
      rfl
  | heard clause hf hl =>
    cases slot with
    | terminate => exact spares_of_eq rfl rfl rfl
    | exporter =>
      refine ⟨⟨1, ?_⟩, rfl, ?_⟩ <;> simp [occupant, hl, ran, Event.runs?]
      rfl
  | heardInVain clause p hf hl =>
    cases slot with
    | terminate => exact spares_of_eq rfl rfl rfl
    | exporter =>
      refine ⟨⟨1, ?_⟩, rfl, ?_⟩ <;> simp [occupant, hl, ran, Event.runs?, List.filterMap_cons]
      rfl
  | unconverted p hf hl => exact spares_of_eq (by cases slot <;> rfl) rfl rfl

theorem slot_of_owner? (slot : Slot) (i : Nat) {events : List Event} (h : ∀ e ∈ events, e.owner? ≠ some i) :
    registrations slot i events = [] ∧ ran slot i events = [] := by
  constructor <;> refine List.filterMap_eq_nil_iff.mpr ?_ <;> intro e he <;> have := h e he
  · cases e with
    | returned owner c reply => exact if_neg this
    | _ => rfl
  · cases e with
    | asked j tag => exact if_neg fun hj => this (congrArg some hj.2)
    | heard j tag clause => exact if_neg fun hj => this (congrArg some hj.2)
    | _ => rfl

theorem Client.Visit.steady {c c' : Client} (h : Client.Visit c c') (slot : Slot) (i : Nat) :
    Client.Steady slot i [] c c' := by
  cases h with
  | aside he =>
    obtain ⟨hr, hn⟩ := slot_of_owner? slot i fun e hm => by
      rw [(he e hm).owner?]
      exact nofun
    exact .note c hr hn
  | @bridge j b b' events e hb hv he =>
    have hse := @slot_of_owner? slot i [e] (by simp [he.owner?])
    by_cases hj : j = i
    · subst hj
      obtain ⟨⟨n, ho⟩, hr, hran⟩ := hv.spares slot
      refine .change hb ho ?_ ?_
      · rw [registrations_append, hr, hse.1]
        rfl
      · rw [ran_append, hse.2, List.append_nil]
        exact hran
    · have hs := @slot_of_owner? slot i events fun e' he' => by
        rcases hv.owner? e' he' with ho | ho <;> rw [ho] <;> simp [hj]
      refine (Client.Steady.setBridge b' hj).trans (.note _ ?_ ?_)
      · rw [registrations_append, hs.1, hse.1]
        rfl
      · rw [ran_append, hs.2, hse.2]
        rfl

theorem Client.Visits.steady {c c' : Client} (h : Client.Visits c c') (slot : Slot) (i : Nat) :
    Client.Steady slot i [] c c' := by
  induction h with
  | refl => exact .refl slot i c
  | tail _ hv ih => exact ih.trans (hv.steady slot i)

/-- A call registers what it says, and the visits in it spare the slot. -/
theorem World.call_steady (owner : Option Nat) (a : Address) (c : Call) (w : World σ) (slot : Slot)
    (i : Nat) :
    Client.Steady slot i
      ((Event.returned owner c (w.call N owner a c).1).registers? slot i).toList
      w.client (w.call N owner a c).2.client := by
  obtain ⟨client, hv, hc⟩ := World.call_client N owner a c w
  have h₁ : Client.Steady slot i [] w.client (w.client.note [.called owner a c]) := .note _ rfl rfl
  rw [hc]
  refine (h₁.trans (hv.steady slot i)).trans (.note _ ?_ rfl)
  show List.filterMap _ [_] = _
  cases hr : Event.registers? slot i (.returned owner c (w.call N owner a c).1) <;>
    simp [hr]

/-! ## Moves -/

theorem slot_of_givesBack (slot : Slot) (i : Nat) {j : Nat} {events : List Event}
    (h : ∀ e ∈ events, e.GivesBack j) :
    registrations slot i events = [] ∧ ran slot i events = [] := by
  constructor <;> refine List.filterMap_eq_nil_iff.mpr ?_ <;> intro e he <;> cases h e he <;> rfl

theorem Focus.get?_bridge {f : Focus σ} (hb : f.solver.identity ∈ f.world.client.bridges.keys) :
    f.world.client.bridges.get? f.solver.identity = some f.bridge := by
  obtain ⟨b, hb⟩ := (Keyed.mem_keys_iff _ _).mp hb
  rw [bridge, Client.bridge, hb, Option.getD_some]

theorem Focus.setBridge_steady {f : Focus σ} {b' : Bridge} {events : List Event}
    (hb : f.solver.identity ∈ f.world.client.bridges.keys)
    (ho : f.solver.identity = i → b'.occupant slot = f.bridge.occupant slot)
    (hr : registrations slot i events = []) (hn : ran slot i events = []) :
    Client.Steady slot i [] f.world.client ((f.setBridge b').note events).world.client := by
  by_cases hi : f.solver.identity = i
  · have hg := Focus.get?_bridge hb
    have hs : Bridge.Spares slot i f.bridge b' events := Bridge.spares_of_eq (ho hi) hr hn
    obtain ⟨n, ho⟩ := hs.holds
    show Client.Steady slot i [] _ ((f.world.client.setBridge f.solver.identity b').note events)
    rw [hi] at hg ⊢
    exact .change hg ho hr hs.ran
  · exact (Client.Steady.setBridge b' hi).trans (.note _ hr hn)

theorem World.call_spares {owner : Option Nat} {a : Address} {c : Call} (w : World σ)
    (h : c.registers? slot = none ∨ owner ≠ some i) :
    Client.Steady slot i [] w.client (w.call N owner a c).2.client := by
  have hs := World.call_steady (N := N) owner a c w slot i
  have hn : (Event.returned owner c (w.call N owner a c).1).registers? slot i = none := by
    rcases h with h | h
    · simp only [Event.registers?, h, Option.map_none, ite_self]
    · exact if_neg h
  rw [hn] at hs
  exact hs

theorem Call.registers?_of_entry {c : Call} (he : c.entry ∈ es) (hs : slot.entry ∉ es) :
    c.registers? slot = none := by
  cases hr : c.registers? slot with
  | none => rfl
  | some r => exact absurd (Call.registers?_entry hr ▸ he) hs

/-- **A move that is not for the slot, or not for the solver, leaves the slot alone.** -/
theorem Solver.Move.steady {f f' : Focus σ} (h : Solver.Move N es f f')
    (hb : f.solver.identity ∈ f.world.client.bridges.keys)
    (hs : slot.entry ∉ es ∨ f.solver.identity ≠ i) :
    Client.Steady slot i [] f.world.client f'.world.client := by
  cases h with
  | tell n => exact .note _ rfl rfl
  | buffer buffer => exact .refl slot i _
  | options he => exact .refl slot i _
  | call he hc =>
    refine World.call_spares _ ?_
    refine hs.imp (Call.registers?_of_entry he) ?_
    intro hi h
    exact hi (Option.some.inj h)
  | resume he hp => exact Focus.setBridge_steady hb (fun _ => by cases slot <;> rfl) rfl rfl
  | take he => exact .note _ rfl rfl
  | drop he => exact .note _ rfl rfl
  | settleTerminate he =>
    obtain ⟨hr, hn⟩ := slot_of_givesBack slot i (f.bridge.dropEvents_givesBack f.solver.identity .terminate)
    refine Focus.setBridge_steady hb ?_ hr hn
    intro hi
    cases slot with
    | terminate => exact (hs.elim (fun h => h he) fun h => h hi).elim
    | exporter => rfl
  | settleExporter he =>
    obtain ⟨hr, hn⟩ := slot_of_givesBack slot i (f.bridge.dropEvents_givesBack f.solver.identity .exporter)
    refine Focus.setBridge_steady hb ?_ hr hn
    intro hi
    cases slot with
    | terminate => rfl
    | exporter => exact (hs.elim (fun h => h he) fun h => h hi).elim

theorem Solver.Moves.steady {n : Nat} {f f' : Focus σ} (h : Solver.Moves N es f f')
    (hn : ∀ j ∈ f.world.client.bridges.keys, j < n)
    (hb : f.solver.identity ∈ f.world.client.bridges.keys)
    (hs : slot.entry ∉ es ∨ f.solver.identity ≠ i) :
    Client.Steady slot i [] f.world.client f'.world.client := by
  induction h with
  | refl => exact .refl slot i _
  | tail hms hm ih =>
    have hid := (Solver.Moves.solver_eq hms).1
    refine ih.trans (hm.steady ?_ ?_)
    · rw [(Solver.Moves.keeps hms hn hb).keys, hid]
      exact hb
    · rw [hid]
      exact hs

end SatClient
