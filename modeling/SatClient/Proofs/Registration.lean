import SatClient.Proofs.Slot

/-!
# Registration of closures, over all turns

A slot of a solver holds the closure of the latest registration if that was a set which succeeded,
and is empty otherwise. While it holds one, the native solver was last told to call back the bridge
of that solver, and agreed.

* `Enrolment`, `Step.registers?`, `Passage.leaves?`, `latest`: what a step is to register, and what
  the latest registration of a solver has left
* `Registered`: the invariant of a slot, with what has been run from it
* `Solver.Enrolled`: what each of the four operations does to its slot
* **`slot_holds_latest`**: slots, the runs from them and the native registrations, after all turns
-/

namespace SatClient

variable {σ α : Type} {N : Native σ} {es : List EntryPoint} {slot : Slot} {i : Nat}

/-! ## What is registered -/

/-- What a step is to register: a closure with its form, and a greatest length for clauses. -/
structure Enrolment where
  occupant : Occupant
  maxLength : Option Int32
  deriving DecidableEq

/-- What the native solver is told when a closure is registered for the solver `i`. -/
def Enrolment.request (i : Nat) (e : Enrolment) : Registration :=
  ⟨some i, some .trampoline, e.maxLength⟩

/-- The solver, the slot, and what is to be in it after a step: nothing if it is cleared. -/
def Step.registers? : Step → Option (Int × Slot × Option Enrolment)
  | setTerminate key closure => some (key, .terminate, some ⟨⟨closure, none⟩, none⟩)
  | clearTerminate key => some (key, .terminate, none)
  | setExport key listener maxLength =>
    some (key, .exporter, some ⟨⟨listener.closure, some listener.form⟩, some maxLength⟩)
  | clearExport key => some (key, .exporter, none)
  | _ => none

def Turn.registers? : Turn σ → Option (Int × Slot × Option Enrolment)
  | .client action => action.registers?
  | .native _ => none

/-- What a turn leaves in a slot of the solver `i`, if it is a registration there. -/
def Passage.leaves? (slot : Slot) (i : Nat) (p : Passage σ) : Option (Option Enrolment) :=
  p.turn.registers?.bind fun (key, slot', e) =>
    if slot' = slot ∧ p.before.stage.identity? key = some i then
      some (if p.answer.isDone then e else none)
    else none

/-- What the latest registration in a slot of the solver `i` has left there. -/
def latest (slot : Slot) (i : Nat) (course : List (Passage σ)) : Option Enrolment :=
  (course.filterMap (·.leaves? slot i)).getLast?.getD none

/-! ## The invariant -/

/-- A slot of the solver `i`, where the latest registration has left `e`: the slot holds that, and the
native solver was last told so and agreed. What has been run since `base` was that closure. -/
structure Registered (slot : Slot) (i : Nat) (e : Option Enrolment) (base : List Event)
    (w : World σ) : Prop where
  holds : ∀ b, w.client.bridges.get? i = some b →
    ∃ n, b.occupant slot = e.map fun x => x.occupant.ranOn n
  told : ∀ x, e = some x → (w.client.bridges.get? i).isSome →
    ∃ code, (registrations slot i w.client.trace).getLast? = some (x.request i, code) ∧ code.isOk
  fresh : w.nextIdentity ≤ i → e = none
  length : slot = .terminate → ∀ x, e = some x → x.maxLength = none
  runs : ∃ events, w.client.trace = base ++ events ∧
    ∀ tag ∈ ran slot i events, ∃ x, e = some x ∧ x.occupant.closure.tag = tag

namespace Registered

variable {e : Option Enrolment} {base : List Event} {w w' : World σ}

theorem rebase (h : Registered slot i e base w) : Registered slot i e w.client.trace w :=
  ⟨h.holds, h.told, h.fresh, h.length, [], (List.append_nil _).symm, nofun⟩

/-- What leaves the slot alone leaves it registered. -/
theorem steady (h : Registered slot i e base w) (hx : w.nextIdentity ≤ w'.nextIdentity)
    (hc : Client.Steady slot i [] w.client w'.client) : Registered slot i e base w' := by
  obtain ⟨hthere, ⟨n, hn⟩, events, ht, hr, hran⟩ := hc
  constructor
  · intro b' hb'
    rw [hb'] at hthere
    obtain ⟨b, hb⟩ := Option.isSome_iff_exists.mp hthere.symm
    obtain ⟨m, hm⟩ := h.holds b hb
    refine ⟨m + n, ?_⟩
    rw [Client.occupant, Client.occupant, hb, hb', Option.bind_some, Option.bind_some, hm,
      Option.map_map] at hn
    rw [hn]
    congr 1
    funext x
    exact x.occupant.ranOn_ranOn m n
  · intro x hx hb
    rw [hthere] at hb
    rw [ht, registrations_append, hr, List.append_nil]
    exact h.told x hx hb
  · intro hi
    exact h.fresh (Nat.le_trans hx hi)
  · exact h.length
  · obtain ⟨events', ht', hran'⟩ := h.runs
    refine ⟨events' ++ events, by rw [ht, ht', List.append_assoc], ?_⟩
    intro tag htag
    rw [ran_append] at htag
    rcases List.mem_append.mp htag with htag | htag
    · exact hran' tag htag
    · obtain ⟨o, ho, rfl⟩ := hran tag htag
      obtain ⟨b, hb, hbo⟩ := Option.bind_eq_some_iff.mp ho
      obtain ⟨m, hm⟩ := h.holds b hb
      rw [hm] at hbo
      obtain ⟨x, hx, rfl⟩ := Option.map_eq_some_iff.mp hbo
      exact ⟨x, hx, rfl⟩

/-- A new solver has empty slots, and nothing has been registered for it. -/
theorem opened (h : Registered slot i e base w) (handle : Handle) :
    Registered slot i e base (w.opened handle) := by
  have ht : (w.opened handle).client.trace = w.client.trace ++ [.opened w.nextIdentity handle] := rfl
  have hg : (w.opened handle).client.bridges.get? i =
      if w.nextIdentity = i then some {} else w.client.bridges.get? i := Keyed.get?_set _ _ _ _
  have hr : registrations slot i [.opened w.nextIdentity handle] = [] := rfl
  have hn : ran slot i [.opened w.nextIdentity handle] = [] := rfl
  constructor
  · intro b hb'
    rw [hg] at hb'
    split_ifs at hb' with hi
    · rw [h.fresh (Nat.le_of_eq hi), ← Option.some.inj hb']
      exact ⟨0, by cases slot <;> rfl⟩
    · exact h.holds b hb'
  · intro x hx hb'
    rw [hg] at hb'
    split_ifs at hb' with hi
    · rw [h.fresh (Nat.le_of_eq hi)] at hx
      cases hx
    · rw [ht, registrations_append, hr, List.append_nil]
      exact h.told x hx hb'
  · intro hi
    have hi : w.nextIdentity + 1 ≤ i := hi
    exact h.fresh (by omega)
  · exact h.length
  · obtain ⟨events, htr, hran⟩ := h.runs
    refine ⟨events ++ [.opened w.nextIdentity handle], by rw [ht, htr, List.append_assoc], ?_⟩
    rw [ran_append, hn, List.append_nil]
    exact hran

/-- A solver that ends has no slots any more; those of others stay. -/
theorem closed {f : Focus σ} (h : Registered slot i e base f.world)
    (hk : f.world.client.bridges.keys.Nodup) : Registered slot i e base (Solver.close f) := by
  obtain ⟨events, ht, hback⟩ := Solver.close_trace f
  obtain ⟨hr, hn⟩ := slot_of_givesBack slot i hback
  have hg : (Solver.close f).client.bridges.get? i =
      if f.solver.identity = i then none else f.world.client.bridges.get? i := Keyed.get?_erase hk _ _
  constructor
  · intro b' hb'
    rw [hg] at hb'
    split_ifs at hb'
    exact h.holds b' hb'
  · intro x hx hb'
    rw [hg] at hb'
    split_ifs at hb'
    · cases hb'
    · rw [ht, registrations_append, hr, List.append_nil]
      exact h.told x hx hb'
  · exact h.fresh
  · exact h.length
  · obtain ⟨events', htr, hran⟩ := h.runs
    refine ⟨events' ++ events, by rw [ht, htr, List.append_assoc], ?_⟩
    rw [ran_append, hn, List.append_nil]
    exact hran

end Registered

/-- **A move that is not for the slot leaves it registered.** -/
theorem Stage.Move.registered {e : Option Enrolment} {base : List Event} {st st' : Stage σ}
    (h : Stage.Move N es st st') (hs : st.Sound) (he : slot.entry ∉ es)
    (hr : Registered slot i e base st.world) : Registered slot i e base st'.world := by
  cases h with
  | tell n => exact hr.steady (Nat.le_refl _) (.note _ rfl rfl)
  | unload => exact hr.steady (Nat.le_refl _) (.note _ rfl rfl)
  | ask ha hc => exact hr.steady (Nat.le_refl _) (World.call_spares _ (.inr nofun))
  | operate hk h =>
    exact hr.steady (Nat.le_of_eq h.nextIdentity.symm)
      (h.steady (hs.bridge_of_get? hk) (.inl he))
  | beget hi hn => exact hr.opened _
  | keep hn hk => exact hr
  | @finish key solver events hrel hk ht =>
    let f : Focus σ := ((⟨solver, st.world⟩ : Focus σ).call N (.release solver.handle)).2
    have hc : Client.Steady slot i [] st.world.client f.world.client :=
      World.call_spares _ (.inl (Call.registers?_of_entry hrel he))
    have hn : Client.Steady slot i [] f.world.client (f.note events).world.client := by
      obtain ⟨hre, hru⟩ := slot_of_owner? slot i fun e hm => by
        obtain ⟨n, rfl⟩ := ht e hm
        exact nofun
      exact .note _ hre hru
    have hf : Registered slot i e base (f.note events).world :=
      hr.steady (Nat.le_refl _) (hc.trans hn)
    exact hf.closed (hs.asked hk ht).bridges

theorem Stage.Moves.registered {e : Option Enrolment} {base : List Event} {st st' : Stage σ}
    (h : Stage.Moves N es st st') (hs : st.Sound) (he : slot.entry ∉ es)
    (hr : Registered slot i e base st.world) : Registered slot i e base st'.world :=
  Stage.Moves.induct (P := fun st => Registered slot i e base st.world)
    (fun _ _ hm hst hp => hm.registered hst he hp) h hs hr

/-! ## The four operations -/

namespace Solver

/-- The slot of the solver at hand is left alone while the calls in `regs` register something in it;
and then it holds `o`. -/
def Settles (slot : Slot) (o : Option Occupant) (regs : List (Registration × Code))
    (f f' : Focus σ) : Prop :=
  ∃ c b events, Client.Steady slot f.solver.identity regs f.world.client c ∧
    f'.world.client = (c.setBridge f.solver.identity b).note events ∧ b.occupant slot = o ∧
    registrations slot f.solver.identity events = [] ∧ ran slot f.solver.identity events = []

variable {o : Option Occupant} {regs : List (Registration × Code)} {f f' g : Focus σ}

theorem Settles.note {tail : List Event} (h : Settles slot o regs f f')
    (hr : registrations slot f.solver.identity tail = []) (hn : ran slot f.solver.identity tail = []) :
    Settles slot o regs f (f'.note tail) := by
  obtain ⟨c, b, events, hc, hf, ho, hr', hn'⟩ := h
  refine ⟨c, b, events ++ tail, hc, ?_, ho, ?_, ?_⟩
  · show f'.world.client.note tail = _
    rw [hf]
    simp only [Client.note, List.append_assoc]
  · rw [registrations_append, hr, hr']
    rfl
  · rw [ran_append, hn, hn']
    rfl

theorem Settles.check (h : Settles slot o regs f f') (e : EntryPoint) (code : Code) :
    Settles slot o regs f (Solver.check e code f').2 := by
  rw [check_apply]
  split_ifs
  · exact h
  · exact h.note rfl rfl

theorem settles_terminate (closure : Option Closure)
    (h : Client.Steady .terminate f.solver.identity regs f.world.client g.world.client)
    (hi : g.solver.identity = f.solver.identity) :
    Settles .terminate (closure.map (⟨·, none⟩)) regs f (settledTerminate closure g) := by
  refine ⟨g.world.client, { g.bridge with terminate := closure },
    g.bridge.dropEvents g.solver.identity .terminate, h, ?_, rfl, ?_, ?_⟩
  · rw [← hi]
    rfl
  · exact (slot_of_givesBack _ _ (g.bridge.dropEvents_givesBack _ _)).1
  · exact (slot_of_givesBack _ _ (g.bridge.dropEvents_givesBack _ _)).2

theorem settles_exporter (listener : Option Listener)
    (h : Client.Steady .exporter f.solver.identity regs f.world.client g.world.client)
    (hi : g.solver.identity = f.solver.identity) :
    Settles .exporter (listener.map fun l => ⟨l.closure, some l.form⟩) regs f
      (settledExporter listener g) := by
  refine ⟨g.world.client, { g.bridge with exporter := listener, converted := [] },
    g.bridge.dropEvents g.solver.identity .exporter, h, ?_, rfl, ?_, ?_⟩
  · rw [← hi]
    rfl
  · exact (slot_of_givesBack _ _ (g.bridge.dropEvents_givesBack _ _)).1
  · exact (slot_of_givesBack _ _ (g.bridge.dropEvents_givesBack _ _)).2

theorem steady_called {c : Call} {r : Registration} {after : List Event}
    (hg : Client.Steady slot f.solver.identity [] f.world.client g.world.client)
    (hi : g.solver.identity = f.solver.identity) (hr : c.registers? slot = some r)
    (ha : registrations slot f.solver.identity after = [] ∧ ran slot f.solver.identity after = []) :
    Client.Steady slot f.solver.identity [(r, (g.call N c).1.code)] f.world.client
      ((g.call N c).2.note after).world.client := by
  have hc : Client.Steady slot f.solver.identity
      ((Event.returned (some g.solver.identity) c (g.call N c).1).registers? slot
        f.solver.identity).toList
      g.world.client (g.call N c).2.world.client := World.call_steady _ _ _ _ _ _
  have hr' : (Event.returned (some g.solver.identity) c (g.call N c).1).registers? slot
      f.solver.identity = some (r, (g.call N c).1.code) := by
    simp only [Event.registers?, hi, if_true, hr, Option.map_some]
  rw [hr'] at hc
  exact (hg.trans hc).trans (.note _ ha.1 ha.2)

/-- What an operation does to the slot of its solver: if it succeeds the slot holds what is to be
registered, and the native solver has agreed to call the bridge back; otherwise the slot is empty.
The native solver need not be told again of a slot for termination that is full. -/
def Enrolled (slot : Slot) (e : Option Enrolment) (f : Focus σ) (r : Except Stop Unit × Focus σ) :
    Prop :=
  ∃ regs, Settles slot (if r.1.isOk then e.map Enrolment.occupant else none) regs f r.2 ∧
    (r.1.isOk → ∀ y, e = some y →
      (regs = [] ∧ f.bridge.terminate.isSome ∧ slot = .terminate) ∨
        ∃ code, regs = [(y.request f.solver.identity, code)] ∧ code.isOk)

theorem enrolled_check {e : Option Enrolment} {code : Code} (h : Settles slot none regs f g)
    (he : code.isOk → e = none) (entry : EntryPoint) : Enrolled slot e f (check entry code g) := by
  have hs := h.check entry code
  by_cases hok : code.isOk
  · refine ⟨regs, ?_, fun _ y hy => ?_⟩
    · rw [he hok, Option.map_none, ite_self]
      exact hs
    · rw [he hok] at hy
      cases hy
  · have hr : (check entry code g).1.isOk = false := by
      rw [check_apply, if_neg hok]
      rfl
    refine ⟨regs, ?_, fun h => ?_⟩
    · rw [hr]
      exact hs
    · rw [hr] at h
      cases h

theorem enrolled_setTerminate (closure : Closure) (f : Focus σ) :
    Enrolled .terminate (some ⟨⟨closure, none⟩, none⟩) f (setTerminate N closure f) := by
  let taken : List Event := [.taken f.solver.identity .terminate closure.tag]
  let c : Call := .setTerminate f.solver.handle (some f.solver.identity) (some .trampoline)
  let called := (f.note taken).call N c
  let told := called.2.note [.notice (.setTerminate called.1.code)]
  have hc : Client.Steady .terminate f.solver.identity
      [(⟨some f.solver.identity, some .trampoline, none⟩, called.1.code)] f.world.client
      told.world.client := steady_called (.note _ rfl rfl) rfl rfl ⟨rfl, rfl⟩
  rw [setTerminate_apply]
  dsimp only
  split_ifs with hb hok
  · have hn : Client.Steady .terminate f.solver.identity [] f.world.client
        ((f.note taken).note [.notice .replaced]).world.client := by
      rw [Focus.note_note]
      exact .note _ rfl rfl
    exact ⟨[], settles_terminate (some closure) hn rfl, fun _ y _ => .inl ⟨rfl, hb, rfl⟩⟩
  · refine ⟨_, settles_terminate (some closure) hc rfl, ?_⟩
    rintro - y ⟨⟩
    exact .inr ⟨_, rfl, hok⟩
  · exact enrolled_check ((settles_terminate none hc rfl).note rfl rfl) (fun h => absurd h hok) _

theorem enrolled_clearTerminate (f : Focus σ) :
    Enrolled .terminate none f (clearTerminate N f) := by
  let called := f.call N (.setTerminate f.solver.handle none none)
  let told := called.2.note [.notice (.clearedTerminate called.1.code)]
  have hc : Client.Steady .terminate f.solver.identity [(⟨none, none, none⟩, called.1.code)]
      f.world.client told.world.client := steady_called (.refl _ _ _) rfl rfl ⟨rfl, rfl⟩
  rw [clearTerminate_apply]
  exact enrolled_check (settles_terminate none hc rfl) (fun _ => rfl) _

theorem enrolled_setExport (listener : Listener) (maxLength : Int32) (f : Focus σ) :
    Enrolled .exporter (some ⟨⟨listener.closure, some listener.form⟩, some maxLength⟩) f
      (setExport N listener maxLength f) := by
  let taken : List Event := [.taken f.solver.identity .exporter listener.closure.tag]
  let c : Call :=
    .setExport f.solver.handle (some f.solver.identity) maxLength (some .trampoline)
  let called := (f.note taken).call N c
  let told := called.2.note [.notice (.setExport maxLength called.1.code)]
  have hc : Client.Steady .exporter f.solver.identity
      [(⟨some f.solver.identity, some .trampoline, some maxLength⟩, called.1.code)] f.world.client
      told.world.client := steady_called (.note _ rfl rfl) rfl rfl ⟨rfl, rfl⟩
  rw [setExport_apply]
  dsimp only
  split_ifs with hok
  · refine ⟨_, settles_exporter (some listener) hc rfl, ?_⟩
    rintro - y ⟨⟩
    exact .inr ⟨_, rfl, hok⟩
  · exact enrolled_check ((settles_exporter none hc rfl).note rfl rfl) (fun h => absurd h hok) _

theorem enrolled_clearExport (f : Focus σ) : Enrolled .exporter none f (clearExport N f) := by
  let called := f.call N (.setExport f.solver.handle none 0 none)
  let told := called.2.note [.notice (.clearedExport called.1.code)]
  have hc : Client.Steady .exporter f.solver.identity [(⟨none, none, some 0⟩, called.1.code)]
      f.world.client told.world.client := steady_called (.refl _ _ _) rfl rfl ⟨rfl, rfl⟩
  rw [clearExport_apply]
  exact enrolled_check (settles_exporter none hc rfl) (fun _ => rfl) _

end Solver

/-- **An operation that enrols leaves its slot registered.** -/
theorem Registered.enrolled {e e' : Option Enrolment} {base : List Event} {f : Focus σ}
    {r : Except Stop Unit × Focus σ} (hr : Registered slot f.solver.identity e base f.world)
    (h : Solver.Enrolled slot e' f r) (hb : f.solver.identity ∈ f.world.client.bridges.keys)
    (hx : r.2.world.nextIdentity = f.world.nextIdentity)
    (hi : f.solver.identity < f.world.nextIdentity)
    (hl : slot = .terminate → ∀ y, e' = some y → y.maxLength = none) :
    Registered slot f.solver.identity (if r.1.isOk then e' else none) r.2.world.client.trace
        r.2.world ∧
      ∃ events, r.2.world.client.trace = f.world.client.trace ++ events ∧
        ∀ tag ∈ ran slot f.solver.identity events,
          ∃ x, e = some x ∧ x.occupant.closure.tag = tag := by
  obtain ⟨regs, ⟨c, b, after, hc, hf, ho, hra, hna⟩, hreg⟩ := h
  obtain ⟨-, -, events, ht, hre, hran⟩ := hc
  have hg := Focus.get?_bridge hb
  have htr : r.2.world.client.trace = f.world.client.trace ++ (events ++ after) := by
    rw [hf, ← List.append_assoc, ← ht]
    rfl
  have hgr : r.2.world.client.bridges.get? f.solver.identity = some b := by
    rw [hf]
    exact Keyed.get?_set_self _ _ _
  refine ⟨⟨?_, ?_, ?_, ?_, [], (List.append_nil _).symm, nofun⟩, events ++ after, htr, ?_⟩
  · intro b' hb'
    rw [hgr] at hb'
    rw [← Option.some.inj hb', ho]
    refine ⟨0, ?_⟩
    split_ifs
    · cases e' <;> rfl
    · rfl
  · intro y hy _
    split_ifs at hy with hok
    rw [htr, registrations_append, registrations_append, hre, hra, List.append_nil]
    rcases hreg hok y hy with ⟨rfl, hterm, hslot⟩ | ⟨code, rfl, hcode⟩
    · -- the closure is replaced: what the native solver was told of the one before still holds
      obtain ⟨n, hn⟩ := hr.holds _ hg
      obtain ⟨x, hx⟩ : ∃ x, e = some x := by
        cases e with
        | some x => exact ⟨x, rfl⟩
        | none =>
          rw [hslot] at hn
          obtain ⟨cl, hcl⟩ := Option.isSome_iff_exists.mp hterm
          rw [Bridge.occupant, hcl] at hn
          cases hn
      obtain ⟨code, htold, hcode⟩ := hr.told x hx (by rw [hg]; rfl)
      refine ⟨code, ?_, hcode⟩
      rw [List.append_nil, htold, Enrolment.request, Enrolment.request, hl hslot y hy,
        hr.length hslot x hx]
    · exact ⟨code, by simp, hcode⟩
  · intro hle
    rw [hx] at hle
    omega
  · intro hslot y hy
    split_ifs at hy
    exact hl hslot y hy
  · intro tag htag
    rw [ran_append, hna, List.append_nil] at htag
    obtain ⟨o, hoc, rfl⟩ := hran tag htag
    obtain ⟨n, hn⟩ := hr.holds _ hg
    rw [Client.occupant, hg, Option.bind_some, hn] at hoc
    obtain ⟨x, hx, rfl⟩ := Option.map_eq_some_iff.mp hoc
    exact ⟨x, hx, rfl⟩

/-! ## Turns -/

/-- A step that is to register something is an operation that enrols. -/
theorem Step.enrolled {action : Step} {key : Int} {e : Option Enrolment}
    (ha : action.registers? = some (key, slot, e)) (N : Native σ) :
    ∃ x : Act (Focus σ) Unit, (∀ s : Session σ, s.step N action = s.runOn key x .ofUnit) ∧
      (∀ f, Solver.Enrolled slot e f (x f)) ∧ (∀ f, Solver.Moves N [slot.entry] f (x f).2) ∧
      (slot = .terminate → ∀ y, e = some y → y.maxLength = none) := by
  cases action with
  | setTerminate k closure =>
    cases ha
    refine ⟨_, fun _ => rfl, Solver.enrolled_setTerminate closure,
      Solver.moves_setTerminate closure, ?_⟩
    rintro - y ⟨⟩
    rfl
  | clearTerminate k =>
    cases ha
    exact ⟨_, fun _ => rfl, Solver.enrolled_clearTerminate, Solver.moves_clearTerminate, nofun⟩
  | setExport k listener maxLength =>
    cases ha
    exact ⟨_, fun _ => rfl, Solver.enrolled_setExport listener maxLength,
      Solver.moves_setExport listener maxLength, nofun⟩
  | clearExport k =>
    cases ha
    exact ⟨_, fun _ => rfl, Solver.enrolled_clearExport, Solver.moves_clearExport, nofun⟩
  | _ => cases ha

theorem Turn.entry_notMem {t : Turn σ} (h : ∀ key e, t.registers? ≠ some (key, slot, e)) :
    slot.entry ∉ t.entries := by
  cases t with
  | native d => exact List.not_mem_nil
  | client action =>
    cases action <;> cases slot <;>
      first | exact absurd rfl (h _ _) | simp [Turn.entries, Step.entries, Slot.entry]

namespace Session

variable {s : Session σ} {e : Option Enrolment} {base : List Event}

/-- The closures that are run in a turn, and what it leaves in the slot. -/
def Leaves (slot : Slot) (i : Nat) (e : Option Enrolment) (s' : Session σ) (p : Passage σ) : Prop :=
  Registered slot i ((p.leaves? slot i).getD e) s'.trace s'.world ∧
    ∀ tag ∈ ran slot i p.events, ∃ x, e = some x ∧ x.occupant.closure.tag = tag

theorem leaves_of_registered {t : Turn σ} (h : Registered slot i e s.trace (s.turn N t).2.world)
    (hl : (s.passage N t).leaves? slot i = none) :
    Leaves slot i e (s.turn N t).2 (s.passage N t) := by
  obtain ⟨events, ht, hran⟩ := h.runs
  rw [Leaves, passage_events ht, hl]
  exact ⟨h.rebase, hran⟩

theorem leaves?_of_registers {action : Step} {key : Int} {e' : Option Enrolment}
    (ha : action.registers? = some (key, slot, e')) :
    (s.passage N (.client action)).leaves? slot i =
      if s.stage.identity? key = some i then
        some (if (s.turn N (.client action)).1.isDone then e' else none) else none := by
  have hr : (s.passage N (.client action)).turn.registers? = some (key, slot, e') := ha
  rw [Passage.leaves?, hr, Option.bind_some]
  simp only [true_and]
  rfl

theorem leaves_of_registers (hs : s.stage.Sound) (hr : Registered slot i e base s.world)
    {action : Step} {key : Int} {e' : Option Enrolment}
    (ha : action.registers? = some (key, slot, e')) :
    Leaves slot i e (s.turn N (.client action)).2 (s.passage N (.client action)) := by
  obtain ⟨x, hstep, henr, hmoves, hlen⟩ := Step.enrolled ha N
  have hturn : s.turn N (.client action) = s.runOn key x .ofUnit := hstep s
  have hleaves := leaves?_of_registers (N := N) (s := s) (i := i) ha
  cases hk : s.solvers.get? key with
  | none =>
    have hid : s.stage.identity? key = none := congrArg (Option.map _) hk
    have hw : s.turn N (.client action) = (.refused .noSolver, s) := by
      rw [hturn, runOn, onSolver, hk]
    refine leaves_of_registered ?_ ?_
    · rw [hw]
      exact hr.rebase
    · rw [hleaves, hid, if_neg (Option.some_ne_none i).symm]
  | some solver =>
    have hid : s.stage.identity? key = some solver.identity := congrArg (Option.map _) hk
    have hb := hs.bridge_of_get? hk
    let r := x ⟨solver, s.world⟩
    have hw : s.turn N (.client action) =
        (.ofUnit r.1, { s with world := r.2.world, solvers := s.solvers.set key r.2.solver }) := by
      rw [hturn, runOn, onSolver, hk]
    have hnext : r.2.world.nextIdentity = s.world.nextIdentity :=
      Solver.Moves.nextIdentity (hmoves ⟨solver, s.world⟩)
    by_cases hi : solver.identity = i
    · subst hi
      obtain ⟨h, events, ht, hran⟩ :=
        Registered.enrolled hr (henr ⟨solver, s.world⟩) hb hnext (hs.fresh _ hb) hlen
      have ht : (s.turn N (.client action)).2.trace = s.trace ++ events := by
        rw [hw]
        exact ht
      have hdone : (s.turn N (.client action)).1.isDone = r.1.isOk := by
        rw [hw]
        rcases r.1 with _ | _ <;> rfl
      rw [Leaves, passage_events ht, hleaves, if_pos hid, hdone, hw]
      exact ⟨h, hran⟩
    · refine leaves_of_registered ?_ ?_
      · rw [hw]
        refine hr.rebase.steady (Nat.le_of_eq hnext.symm) ?_
        exact (hmoves ⟨solver, s.world⟩).steady hs.fresh hb (.inr hi)
      · rw [hleaves, hid, if_neg fun h => hi (Option.some.inj h)]

/-- **A turn leaves in a slot what it registers there, and otherwise what there was.** Until then only
that is run. -/
theorem leaves_turn (hs : s.stage.Sound) (hr : Registered slot i e base s.world) (t : Turn σ) :
    Leaves slot i e (s.turn N t).2 (s.passage N t) := by
  by_cases hreg : ∃ key e', t.registers? = some (key, slot, e')
  · obtain ⟨key, e', hreg⟩ := hreg
    cases t with
    | native d => cases hreg
    | client action => exact leaves_of_registers hs hr hreg
  · have hno : ∀ key e', t.registers? ≠ some (key, slot, e') := fun key e' h => hreg ⟨key, e', h⟩
    refine leaves_of_registered ?_ ?_
    · cases t with
      | client action =>
        exact (step_moves hs.keys action).registered hs (Turn.entry_notMem hno) hr.rebase
      | native d =>
        exact hr.rebase.steady (Nat.le_refl _) ((d.run_visits s.world.client).steady slot i)
    · have hturn : (s.passage N t).turn.registers? = t.registers? := rfl
      rw [Passage.leaves?, hturn]
      rcases ht : t.registers? with _ | ⟨key, slot', e'⟩
      · rfl
      · refine if_neg ?_
        rintro ⟨rfl, -⟩
        exact hno key e' ht

/-- The slot after all turns. By induction on the turns. -/
theorem registered_after (hs : s.stage.Sound) (hr : Registered slot i e base s.world)
    (turns : List (Turn σ)) :
    ∃ base', Registered slot i
      (((s.course N turns).filterMap (·.leaves? slot i)).getLast?.getD e) base'
      (s.after N turns).world := by
  induction turns generalizing s e base with
  | nil => exact ⟨base, hr⟩
  | cons t ts ih =>
    obtain ⟨base', h⟩ := ih (sound_turn hs t) (leaves_turn (N := N) hs hr t).1
    refine ⟨base', ?_⟩
    show Registered slot i (((s.passage N t :: (s.turn N t).2.course N ts).filterMap _).getLast?.getD e)
      base' _
    rw [List.filterMap_cons]
    cases hl : (s.passage N t).leaves? slot i with
    | none =>
      rw [hl] at h
      exact h
    | some e' =>
      rw [hl] at h
      rw [List.getLast?_cons, Option.getD_some]
      exact h

theorem registered_start (opening : Opening) (native : σ) (slot : Slot) (i : Nat) :
    Registered slot i none (start opening native).2.trace (start opening native).2.world := by
  obtain ⟨trace, hs, -⟩ := start_stage opening native
  have hc : (start opening native).2.world.client = { trace } :=
    congrArg (fun st : Stage σ => st.world.client) hs
  refine ⟨?_, nofun, fun _ => rfl, nofun, [], (List.append_nil _).symm, nofun⟩
  intro b hb
  rw [hc] at hb
  cases hb

end Session

/-! ## Calls back -/

/-- What happens when the native solver calls a bridge back for a slot: it polls, or hands out the
clause. -/
def Bridge.calledBack (i : Nat) (natives : List Int32) (b : Bridge) : Slot → List Event
  | .terminate => (b.poll i).2.2
  | .exporter => (b.offer i natives).2

/-- Whether a closure can be handed a clause; a closure for termination is handed none. -/
def Occupant.takes (natives : List Int32) (o : Occupant) : Bool :=
  match o.form with
  | none => true
  | some form => (form.clause natives).isOk

/-- While the cell is empty, a call back runs the closure in the slot, if there is one that takes the
clause, and no other. -/
theorem Bridge.ran_calledBack {b : Bridge} (hf : b.failure = none) (slot : Slot) (i : Nat)
    (natives : List Int32) :
    ran slot i (b.calledBack i natives slot) =
      ((b.occupant slot).toList.filter (·.takes natives)).map (·.closure.tag) := by
  obtain ⟨t, e, f, ls⟩ := b
  cases hf
  cases slot with
  | terminate =>
    cases t with
    | none => rfl
    | some c =>
      simp only [calledBack, poll]
      cases c.conduct <;>
        simp [ran, Event.runs?, occupant, Occupant.takes, capture, List.filterMap_cons]
  | exporter =>
    cases e with
    | none => rfl
    | some l =>
      have ht : (⟨l.closure, some l.form⟩ : Occupant).takes natives = (l.form.clause natives).isOk :=
        rfl
      simp only [calledBack, offer, l.form.receive_fst, occupant, Option.map_some, Option.toList_some, List.filter_cons,
        ht, List.filter_nil]
      cases l.form.clause natives with
      | error o => rfl
      | ok clause =>
        cases l.closure.conduct <;>
          simp [ran, Event.runs?, capture, Except.isOk, Except.toBool, List.filterMap_cons]

/-- **A slot holds the closure of the latest registration if that was a set which succeeded, and is
empty otherwise.** A call back to an empty cell runs exactly that closure, in a turn only that
closure is run, and while there is one the native solver was last told to call back the bridge of
that solver, with the length that was given, and agreed. -/
theorem slot_holds_latest (N : Native σ) (opening : Session.Opening) (native : σ)
    (turns : List (Turn σ)) (slot : Slot) (i : Nat) :
    let start := (Session.start opening native).2
    let s := start.after N turns
    let e := latest slot i (start.course N turns)
    (∀ b, s.world.client.bridges.get? i = some b →
      (∃ n, b.occupant slot = e.map fun x => x.occupant.ranOn n) ∧
        (b.failure = none → ∀ natives, ran slot i (b.calledBack i natives slot) =
          (e.toList.filter (·.occupant.takes natives)).map (·.occupant.closure.tag)) ∧
        ((b.occupant slot).isSome → ∃ x code, e = some x ∧
          (registrations slot i s.trace).getLast? = some (x.request i, code) ∧ code.isOk)) ∧
      ∀ t, ∀ tag ∈ ran slot i (s.passage N t).events,
        ∃ x, e = some x ∧ x.occupant.closure.tag = tag := by
  intro start s e
  have hsound : start.stage.Sound := Session.sound_start opening native
  obtain ⟨base, h⟩ := Session.registered_after (N := N) hsound
    (Session.registered_start opening native slot i) turns
  have h : Registered slot i e base s.world := h
  refine ⟨?_, fun t => (Session.leaves_turn (Session.sound_after hsound turns) h t).2⟩
  intro b hb
  obtain ⟨n, hn⟩ := h.holds b hb
  refine ⟨⟨n, hn⟩, ?_, ?_⟩
  · intro hf natives
    rw [Bridge.ran_calledBack hf, hn]
    rcases e with _ | x
    · rfl
    · have ht : (x.occupant.ranOn n).takes natives = x.occupant.takes natives := rfl
      simp only [Option.map_some, Option.toList_some, List.filter_cons, List.filter_nil, ht]
      cases x.occupant.takes natives <;> rfl
  · intro ho
    obtain ⟨o, ho⟩ := Option.isSome_iff_exists.mp ho
    rw [hn] at ho
    obtain ⟨x, hx, -⟩ := Option.map_eq_some_iff.mp ho
    obtain ⟨code, htold, hcode⟩ := h.told x hx (by rw [hb]; rfl)
    exact ⟨x, code, hx, htold, hcode⟩

end SatClient
