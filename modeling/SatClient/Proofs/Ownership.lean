import SatClient.Constant
import SatClient.Proofs.Custody
import SatClient.Proofs.Strays

/-!
# Closures, over all turns

Every closure that was given has been dropped, or is in its slot of a solver that is there. It leaves
the slot by a registration there or by the end of the solver, and is not run afterwards; but nothing is
known of what is run by a call to a bridge that is gone.

* `given`, `Session.held`: the closures given for a slot of a solver, and the one in it
* `Session.custody_turn`, `Session.custody_after`: those in custody, after one turn and after all
* `Passage.Accounts`: what becomes of the closures of a slot in a turn
* `Item`, `gifts`, `drops`, `Session.holdings`: the closures of all slots of all solvers
* `Event.MayRun`, `OnlyHeldRun`: what may be run, and that it is only what has not been dropped
* **`closures_dropped_once`**: what is given is dropped or held, and dropped when all solvers are gone
-/

namespace SatClient

variable {σ α : Type} {N : Native σ} {es : List EntryPoint} {slot : Slot} {i : Nat}

/-! ## Turns -/

/-- The closure that a turn gives for a slot of the solver `i`, if it is a set there. -/
def Passage.given? (slot : Slot) (i : Nat) (p : Passage σ) : Option String :=
  p.turn.registers?.bind fun (key, slot', e) =>
    if slot' = slot ∧ p.before.stage.identity? key = some i then
      e.map (·.occupant.closure.tag)
    else none

/-- The closures given for a slot of the solver `i`, in order. -/
def given (slot : Slot) (i : Nat) (course : List (Passage σ)) : List String :=
  course.filterMap (·.given? slot i)

/-- The closure in a slot of the solver `i`. -/
def Session.held (slot : Slot) (i : Nat) (s : Session σ) : List String := s.world.client.held slot i

namespace Session

variable {s : Session σ} {tags : List String}

theorem given?_of_registers {action : Step} {key : Int} {e : Option Enrolment}
    (ha : action.registers? = some (key, slot, e)) :
    (s.passage N (.client action)).given? slot i =
      if s.stage.identity? key = some i then e.map (·.occupant.closure.tag) else none := by
  have hr : (s.passage N (.client action)).turn.registers? = some (key, slot, e) := ha
  rw [Passage.given?, hr, Option.bind_some]
  simp only [true_and]
  rfl

theorem given?_of_not_registers {t : Turn σ} (h : ∀ key e, t.registers? ≠ some (key, slot, e)) :
    (s.passage N t).given? slot i = none := by
  have hturn : (s.passage N t).turn.registers? = t.registers? := rfl
  rw [Passage.given?, hturn]
  rcases ht : t.registers? with _ | ⟨key, slot', e⟩
  · rfl
  · refine if_neg ?_
    rintro ⟨rfl, -⟩
    exact h key e ht

theorem custody_of_registers (hs : s.stage.Sound)
    (hc : Client.Custody slot i tags [] s.world.client) {action : Step} {key : Int}
    {e : Option Enrolment} (ha : action.registers? = some (key, slot, e)) :
    Client.Custody slot i (tags ++ ((s.passage N (.client action)).given? slot i).toList) []
      (s.turn N (.client action)).2.world.client := by
  obtain ⟨x, hstep, hhands, hmoves⟩ := Step.hands ha N
  have hturn : s.turn N (.client action) = s.runOn key x .ofUnit := hstep s
  rw [given?_of_registers ha]
  cases hk : s.solvers.get? key with
  | none =>
    have hid : s.stage.identity? key = none := congrArg (Option.map _) hk
    have hw : s.turn N (.client action) = (.refused .noSolver, s) := by
      rw [hturn, runOn, onSolver, hk]
    rw [hid, if_neg (Option.some_ne_none i).symm, hw]
    exact (List.append_nil tags).symm ▸ hc
  | some solver =>
    have hid : s.stage.identity? key = some solver.identity := congrArg (Option.map _) hk
    have hb : solver.identity ∈ s.world.client.bridges.keys := hs.bridge_of_get? hk
    let r := x ⟨solver, s.world⟩
    have hw : s.turn N (.client action) =
        (.ofUnit r.1, { s with world := r.2.world, solvers := s.solvers.set key r.2.solver }) := by
      rw [hturn, runOn, onSolver, hk]
    rw [hw, hid]
    by_cases hi : solver.identity = i
    · subst hi
      rw [if_pos rfl]
      exact hhands ⟨solver, s.world⟩ tags (Focus.get?_bridge hb) hc
    · rw [if_neg fun h => hi (Option.some.inj h)]
      exact (List.append_nil tags).symm ▸ (hmoves ⟨solver, s.world⟩).custody hs.fresh hb (.inr hi) hc

/-- **In a turn the closures of a slot stay in custody, with the one that is given.** -/
theorem custody_turn (hs : s.stage.Sound) (hc : Client.Custody slot i tags [] s.world.client)
    (t : Turn σ) :
    Client.Custody slot i (tags ++ ((s.passage N t).given? slot i).toList) []
      (s.turn N t).2.world.client := by
  by_cases hreg : ∃ key e, t.registers? = some (key, slot, e)
  · obtain ⟨key, e, hreg⟩ := hreg
    cases t with
    | native d => cases hreg
    | client action => exact custody_of_registers hs hc hreg
  · have hno : ∀ key e, t.registers? ≠ some (key, slot, e) := fun key e h => hreg ⟨key, e, h⟩
    rw [given?_of_not_registers hno, Option.toList_none, List.append_nil]
    cases t with
    | client action => exact (step_moves hs.keys action).custody hs (Turn.entry_notMem hno) hc
    | native d =>
      have hv := d.run_visits s.world.client
      obtain ⟨events, ht, hv'⟩ := hv.events
      exact hc.steady (hv.steady slot i) ht (.of_ofVisit hv')

/-- The closures of a slot after all turns. By induction on the turns. -/
theorem custody_after (hs : s.stage.Sound) (hc : Client.Custody slot i tags [] s.world.client)
    (turns : List (Turn σ)) :
    Client.Custody slot i (tags ++ given slot i (s.course N turns)) []
      (s.after N turns).world.client := by
  induction turns generalizing s tags with
  | nil => exact (List.append_nil tags).symm ▸ hc
  | cons t ts ih =>
    have h := ih (sound_turn hs t) (custody_turn (N := N) hs hc t)
    rw [List.append_assoc] at h
    have hg : given slot i (s.course N (t :: ts)) =
        ((s.passage N t).given? slot i).toList ++ given slot i ((s.turn N t).2.course N ts) := by
      rw [given, course, List.filterMap_cons]
      cases (s.passage N t).given? slot i <;> rfl
    rw [hg]
    exact h

theorem custody_start (opening : Opening) (native : σ) (slot : Slot) (i : Nat) :
    Client.Custody slot i [] [] (start opening native).2.world.client := by
  obtain ⟨trace, hs, ho⟩ := start_stage opening native
  have hc : (start opening native).2.world.client = { trace } :=
    congrArg (fun st : Stage σ => st.world.client) hs
  have hi : Idle slot i trace := .of_owner? fun e he => (by rw [(ho e he).1]; exact nofun)
  rw [hc]
  constructor
  · exact hi.taken
  · rw [hi.dropped]
    rfl
  · intro before e after tag he htag
    have hran : ran slot i trace = [] := (slot_of_owner? slot i fun e he => by
      rw [(ho e he).1]
      exact nofun).2
    have hm : tag ∈ ran slot i trace := by
      refine List.mem_filterMap.mpr ⟨e, ?_, htag⟩
      rw [show trace = before ++ e :: after from he]
      exact List.mem_append_right _ List.mem_cons_self
    rw [hran] at hm
    cases hm

end Session

/-! ## What becomes of the closures in a turn -/

/-- What becomes of the closures of a slot of the solver `i` in a turn. -/
structure Passage.Accounts (slot : Slot) (i : Nat) (p : Passage σ) : Prop where
  balance : p.before.held slot i ++ (p.given? slot i).toList =
    dropped slot i p.events ++ p.after.held slot i
  /-- Without a registration in the slot its closure stays while the solver stays. -/
  kept : p.leaves? slot i = none → i ∈ p.after.identities →
    dropped slot i p.events = [] ∧ p.after.held slot i = p.before.held slot i
  /-- A set that succeeds drops what was in the slot. -/
  replaced : ∀ e, p.leaves? slot i = some (some e) →
    dropped slot i p.events = p.before.held slot i ∧
      p.after.held slot i = [e.occupant.closure.tag]
  /-- A set that fails drops what was in the slot and what was to be in it; so does a clear, to
  which nothing is given. -/
  emptied : p.leaves? slot i = some none →
    dropped slot i p.events = p.before.held slot i ++ (p.given? slot i).toList ∧
      p.after.held slot i = []
  /-- Otherwise nothing is dropped before the native solver has been asked to go. -/
  ended : p.leaves? slot i = none → Parting slot i p.events

namespace Session

variable {s : Session σ} {tags : List String} {e : Option Enrolment} {base : List Event}

/-- What a turn leaves in a slot of the solver `i` by a registration there. -/
theorem registers_of_leaves? {p : Passage σ} {o : Option Enrolment} (hl : p.leaves? slot i = some o) :
    ∃ key e, p.turn.registers? = some (key, slot, e) ∧ p.before.stage.identity? key = some i ∧
      o = (if p.answer.isDone then e else none) ∧
      p.given? slot i = e.map (·.occupant.closure.tag) := by
  obtain ⟨⟨key, slot', e⟩, hreg, hif⟩ := Option.bind_eq_some_iff.mp hl
  dsimp only at hif
  rw [Passage.given?, hreg, Option.bind_some]
  dsimp only
  by_cases h : slot' = slot ∧ p.before.stage.identity? key = some i
  · rw [if_pos h] at hif ⊢
    exact ⟨key, e, by rw [h.1], h.2, (Option.some.inj hif).symm, rfl⟩
  · rw [if_neg h] at hif
    cases hif

/-- What a turn gives is given by a registration. -/
theorem given?_of_leaves? {p : Passage σ} (hl : p.leaves? slot i = none) : p.given? slot i = none := by
  rw [Passage.leaves?] at hl
  rw [Passage.given?]
  rcases hr : p.turn.registers? with _ | ⟨key, slot', e⟩
  · rfl
  · rw [hr, Option.bind_some] at hl
    dsimp only at hl
    refine if_neg fun h => ?_
    rw [if_pos h] at hl
    cases hl

/-- The solver in whose slot a turn registers something is there afterwards. -/
theorem mem_identities_of_leaves? {t : Turn σ} {o : Option Enrolment}
    (hl : (s.passage N t).leaves? slot i = some o) : i ∈ (s.turn N t).2.identities := by
  obtain ⟨key, e, hreg, hid, -⟩ := registers_of_leaves? hl
  cases t with
  | native d => cases hreg
  | client action =>
    obtain ⟨x, hstep, -, hmoves⟩ := Step.hands hreg N
    have hturn : s.turn N (.client action) = s.runOn key x .ofUnit := hstep s
    obtain ⟨solver, hk, rfl⟩ := Option.map_eq_some_iff.mp hid
    have hk : s.solvers.get? key = some solver := hk
    rw [hturn, runOn, onSolver, hk, ← (Solver.Moves.solver_eq (hmoves ⟨solver, s.world⟩)).1]
    exact List.mem_map_of_mem (Keyed.mem_values_of_get? (Keyed.get?_set_self _ _ _))

/-- A registration elsewhere leaves a slot alone. -/
theorem steady_of_leaves? (hs : s.stage.Sound) {action : Step} {key : Int} {e : Option Enrolment}
    (ha : action.registers? = some (key, slot, e))
    (hl : (s.passage N (.client action)).leaves? slot i = none) :
    Client.Steady slot i [] s.world.client (s.turn N (.client action)).2.world.client := by
  obtain ⟨x, hstep, -, hmoves⟩ := Step.hands ha N
  have hturn : s.turn N (.client action) = s.runOn key x .ofUnit := hstep s
  rw [hturn, runOn, onSolver]
  cases hk : s.solvers.get? key with
  | none => exact .refl slot i _
  | some solver =>
    refine (hmoves ⟨solver, s.world⟩).steady hs.fresh (hs.bridge_of_get? hk) (.inr ?_)
    intro hi
    have hid : s.stage.identity? key = some i := hi ▸ congrArg (Option.map Solver.identity) hk
    rw [leaves?_of_registers ha, if_pos hid] at hl
    cases hl

/-- A slot of a solver that is there holds what has been registered. -/
theorem held_of_registered (hs : s.stage.Sound) (hr : Registered slot i e base s.world)
    (hi : i ∈ s.identities) : s.held slot i = (e.map (·.occupant.closure.tag)).toList := by
  obtain ⟨b, hb⟩ := (Keyed.mem_keys_iff _ _).mp ((mem_identities_iff hs i).mp hi)
  obtain ⟨n, hn⟩ := hr.holds b hb
  rw [held, Client.held, Client.occupant, hb, Option.bind_some, hn, Option.map_map]
  cases e <;> rfl

theorem held_of_notMem (hs : s.stage.Sound) (hi : i ∉ s.identities) : s.held slot i = [] := by
  have hb : s.world.client.bridges.get? i = none :=
    (Keyed.get?_eq_none_iff _ _).mpr fun h => hi ((mem_identities_iff hs i).mpr h)
  rw [held, Client.held, Client.occupant, hb]
  rfl

/-- What is given and what was held is dropped, or held afterwards. -/
theorem balance_turn (hs : s.stage.Sound) (hc : Client.Custody slot i tags [] s.world.client)
    (t : Turn σ) :
    s.held slot i ++ ((s.passage N t).given? slot i).toList =
      dropped slot i (s.passage N t).events ++ (s.turn N t).2.held slot i := by
  have h : tags ++ ((s.passage N t).given? slot i).toList =
      dropped slot i (s.turn N t).2.trace ++ (s.turn N t).2.held slot i ++ [] :=
    (custody_turn (N := N) hs hc t).balance
  have h' : tags = dropped slot i s.trace ++ s.held slot i ++ [] := hc.balance
  rw [h', passage_trace hs.keys t, dropped_append, List.append_nil, List.append_nil,
    List.append_assoc, List.append_assoc] at h
  exact List.append_cancel_left h

theorem parting_of_dropped {events : List Event} (h : dropped slot i events = []) :
    Parting slot i events := by
  intro before tag after he
  have hm : tag ∈ dropped slot i events := by
    refine List.mem_filterMap.mpr ⟨.dropped i slot tag, ?_, if_pos ⟨rfl, rfl⟩⟩
    rw [he]
    exact List.mem_append_right _ List.mem_cons_self
  rw [h] at hm
  cases hm

/-- Where nothing is registered, nothing is dropped but at the end of the solver. -/
theorem parting_of_leaves? (hs : s.stage.Sound) (hc : Client.Custody slot i tags [] s.world.client)
    {t : Turn σ} (hl : (s.passage N t).leaves? slot i = none) :
    Parting slot i (s.passage N t).events := by
  cases t with
  | native d =>
    obtain ⟨events, ht, hv⟩ := (d.run_visits s.world.client).events
    have hev : (s.passage N (.native d)).events = events := passage_events ht
    rw [hev]
    exact (Idle.of_ofVisit hv).parting
  | client action =>
    by_cases hreg : ∃ key e, action.registers? = some (key, slot, e)
    · obtain ⟨key, e, ha⟩ := hreg
      obtain ⟨n, hn⟩ := (steady_of_leaves? hs ha hl).holds
      have hheld : (s.turn N (.client action)).2.held slot i = s.held slot i := by
        rw [held, Client.held, hn, Option.map_map]
        rfl
      have hb := balance_turn (N := N) hs hc (.client action)
      rw [given?_of_leaves? hl, hheld, Option.toList_none, List.append_nil] at hb
      exact parting_of_dropped (List.self_eq_append_left.mp hb)
    · have hno : slot.entry ∉ action.entries :=
        Turn.entry_notMem (t := (.client action : Turn σ)) fun key e h => hreg ⟨key, e, h⟩
      obtain ⟨events, ht, hp⟩ := (step_moves (N := N) hs.keys action).parts hno i
      have hev : (s.passage N (.client action)).events = events := passage_events ht
      rw [hev]
      exact hp

/-- **In a turn the closures of a slot are accounted for.** -/
theorem accounts_turn (hs : s.stage.Sound) (hr : Registered slot i e base s.world)
    (hc : Client.Custody slot i tags [] s.world.client) (t : Turn σ) :
    (s.passage N t).Accounts slot i := by
  let p := s.passage N t
  have hsound : p.after.stage.Sound := sound_turn hs t
  have hb : s.held slot i ++ (p.given? slot i).toList = dropped slot i p.events ++ p.after.held slot i :=
    balance_turn hs hc t
  obtain ⟨hleft, -⟩ := leaves_turn (N := N) hs hr t
  constructor
  · exact hb
  · intro hl hi
    have hafter := held_of_registered hsound hleft hi
    rw [hl, Option.getD_none] at hafter
    rw [given?_of_leaves? hl, Option.toList_none, List.append_nil] at hb
    by_cases hi' : i ∈ s.identities
    · have hheld : p.after.held slot i = s.held slot i :=
        hafter.trans (held_of_registered hs hr hi').symm
      rw [hheld] at hb
      exact ⟨List.self_eq_append_left.mp hb, hheld⟩
    · rw [held_of_notMem hs hi'] at hb
      obtain ⟨hd, hh⟩ := List.append_eq_nil_iff.mp hb.symm
      exact ⟨hd, hh.trans (held_of_notMem hs hi').symm⟩
  · intro x hl
    obtain ⟨key, e', -, -, ho, hg⟩ := registers_of_leaves? hl
    have hheld := held_of_registered hsound hleft (mem_identities_of_leaves? hl)
    rw [hl, Option.getD_some] at hheld
    split_ifs at ho
    rw [hheld, hg, ← ho] at hb
    exact ⟨(List.append_cancel_right hb).symm, hheld⟩
  · intro hl
    have hheld := held_of_registered hsound hleft (mem_identities_of_leaves? hl)
    rw [hl, Option.getD_some] at hheld
    rw [hheld] at hb
    exact ⟨((List.append_nil _).symm.trans hb.symm), hheld⟩
  · exact parting_of_leaves? hs hc

end Session

/-! ## The closures of all slots -/

/-- A closure for a slot of a solver. -/
structure Item where
  owner : Nat
  slot : Slot
  tag : String
  deriving DecidableEq

/-- The closure, if it is for the slot of the solver `i`. -/
def Item.tag? (slot : Slot) (i : Nat) (x : Item) : Option String :=
  if x.slot = slot ∧ x.owner = i then some x.tag else none

def Passage.gift? (p : Passage σ) : Option Item :=
  p.turn.registers?.bind fun (key, slot, e) =>
    (p.before.stage.identity? key).bind fun i => e.map fun x => ⟨i, slot, x.occupant.closure.tag⟩

def Event.drop? : Event → Option Item
  | dropped i slot tag => some ⟨i, slot, tag⟩
  | _ => none

/-- All closures ever given. -/
def gifts (course : List (Passage σ)) : List Item := course.filterMap Passage.gift?

/-- All closures that have been dropped. -/
def drops (trace : List Event) : List Item := trace.filterMap Event.drop?

/-- The closures in the slots of the solvers that are there. -/
def Session.holdings (s : Session σ) : List Item :=
  s.identities.flatMap fun i => [Slot.terminate, .exporter].flatMap fun slot =>
    (s.held slot i).map (⟨i, slot, ·⟩)

theorem Item.count_tag? (x : Item) (l : List Item) :
    (l.filterMap (Item.tag? x.slot x.owner)).count x.tag = l.count x := by
  induction l with
  | nil => rfl
  | cons y rest ih =>
    obtain ⟨i, slot, tag⟩ := x
    obtain ⟨j, slot', tag'⟩ := y
    rw [List.filterMap_cons, List.count_cons]
    by_cases h : slot' = slot ∧ j = i
    · simp [Item.tag?, h, List.count_cons, ih]
    · have hne : ¬ (j = i ∧ slot' = slot ∧ tag' = tag) := fun h' => h ⟨h'.2.1, h'.1⟩
      simp [Item.tag?, h, hne, ih]

/-- Closures are the same if for each slot they are the same. -/
theorem Item.perm_of_tag? {l l' : List Item}
    (h : ∀ slot i, l.filterMap (Item.tag? slot i) = l'.filterMap (Item.tag? slot i)) : l.Perm l' :=
  List.perm_iff_count.mpr fun x => by rw [← x.count_tag?, ← x.count_tag?, h]

theorem gifts_tag? (slot : Slot) (i : Nat) (course : List (Passage σ)) :
    (gifts course).filterMap (Item.tag? slot i) = given slot i course := by
  rw [gifts, given, List.filterMap_filterMap]
  congr 1
  funext p
  rw [Passage.gift?, Passage.given?]
  rcases p.turn.registers? with _ | ⟨key, slot', e⟩
  · rfl
  · simp only [Option.bind_some]
    cases p.before.stage.identity? key with
    | none => simp
    | some j => cases e <;> simp [Item.tag?]

theorem drops_tag? (slot : Slot) (i : Nat) (trace : List Event) :
    (drops trace).filterMap (Item.tag? slot i) = dropped slot i trace := by
  rw [drops, dropped, List.filterMap_filterMap]
  congr 1
  funext e
  cases e <;> rfl

theorem Item.filterMap_tag? (slot slot' : Slot) (i j : Nat) (tags : List String) :
    (tags.map (Item.mk j slot' ·)).filterMap (Item.tag? slot i) =
      if slot' = slot ∧ j = i then tags else [] := by
  rw [List.filterMap_map]
  by_cases h : slot' = slot ∧ j = i
  · rw [if_pos h]
    have hf : Item.tag? slot i ∘ (Item.mk j slot' ·) = some := by
      funext tag
      exact if_pos h
    rw [hf, List.filterMap_some]
  · rw [if_neg h]
    exact List.filterMap_eq_nil_iff.mpr fun tag _ => if_neg h

/-- What one of distinct things has is what all have together, if the others have nothing. -/
theorem flatMap_ite_of_nodup {l : List Nat} (hl : l.Nodup) (i : Nat) (v : List α) :
    l.flatMap (fun j => if j = i then v else []) = if i ∈ l then v else [] := by
  induction l with
  | nil => rfl
  | cons j rest ih =>
    obtain ⟨hj, hrest⟩ := List.nodup_cons.mp hl
    rw [List.flatMap_cons, ih hrest]
    by_cases hji : j = i
    · subst hji
      simp [hj]
    · have hij : i ≠ j := Ne.symm hji
      simp [hji, hij]

/-- What is held in a slot is held by a solver that is there. -/
theorem Session.holdings_tag? {s : Session σ} (hs : s.stage.Sound) (slot : Slot) (i : Nat) :
    s.holdings.filterMap (Item.tag? slot i) = s.held slot i := by
  have hone (j : Nat) : ([Slot.terminate, .exporter].flatMap fun slot' =>
      (s.held slot' j).map (Item.mk j slot' ·)).filterMap (Item.tag? slot i) =
        if j = i then s.held slot i else [] := by
    simp only [List.flatMap_cons, List.flatMap_nil, List.append_nil, List.filterMap_append,
      Item.filterMap_tag?]
    by_cases hj : j = i <;> cases slot <;> simp [hj]
  rw [holdings, List.filterMap_flatMap]
  simp only [hone]
  rw [flatMap_ite_of_nodup (nodup_identities hs)]
  split_ifs with hi
  · rfl
  · exact (held_of_notMem hs hi).symm

/-- What is given and in custody is dropped or held. -/
theorem Session.gifts_perm {s : Session σ} {course : List (Passage σ)} (hs : s.stage.Sound)
    (hc : ∀ slot i, Client.Custody slot i (given slot i course) [] s.world.client) :
    (gifts course).Perm (drops s.trace ++ s.holdings) := by
  refine Item.perm_of_tag? fun slot i => ?_
  have hb : given slot i course = dropped slot i s.trace ++ s.held slot i ++ [] := (hc slot i).balance
  rw [List.filterMap_append, gifts_tag?, drops_tag?, holdings_tag? hs, hb, List.append_nil]

/-! ## What may be run -/

/-- Whether the closure of a slot of the solver `i` may be run at an event: it is run there, or a call goes
astray, by which anything may be run. -/
def Event.MayRun (slot : Slot) (i : Nat) (tag : String) (e : Event) : Prop :=
  e.runs? slot i = some tag ∨ e.stray?.isSome

/-- What may be run is a closure that has been given and not been dropped: the first of those. -/
def OnlyHeldRun (slot : Slot) (i : Nat) (trace : List Event) : Prop :=
  ∀ before e after tag, trace = before ++ e :: after → e.MayRun slot i tag →
    ∃ rest, taken slot i before = dropped slot i before ++ tag :: rest

/-- Where no call goes astray, nothing is run but what is said to be. -/
theorem RunsHeld.only {trace : List Event} (h : RunsHeld slot i trace) (hs : strays trace = []) :
    OnlyHeldRun slot i trace := by
  rintro before e after tag rfl (hrun | hstray)
  · exact h before e after tag rfl hrun
  · obtain ⟨j, hj⟩ := Option.isSome_iff_exists.mp hstray
    have hm : j ∈ strays (before ++ e :: after) :=
      List.mem_filterMap.mpr ⟨e, List.mem_append_right _ List.mem_cons_self, hj⟩
    rw [hs] at hm
    cases hm

/-- **Every closure that is given is dropped once:** until then it is in its slot of a solver that is
there, and when the session has ended it has been dropped. Only registrations in its slot and the end of
its solver take a closure from a slot. It is not run after it has been dropped, unless a native solver
calls back to a bridge that is gone; that is undefined behaviour. The mock does it to none but solvers
whose release it has refused before. -/
theorem closures_dropped_once (opening : Session.Opening) :
    (∀ {σ : Type} (N : Native σ) (native : σ) (turns : List (Turn σ)),
      let start := (Session.start opening native).2
      let course := start.course N turns
      let s := start.after N turns
      (gifts course).Perm (drops s.trace ++ s.holdings) ∧
        (gifts course).Perm (drops (s.finish N).trace) ∧
        ∀ slot i, given slot i course = dropped slot i s.trace ++ s.held slot i ∧
          (i ∉ s.identities → s.held slot i = []) ∧
          taken slot i (s.finish N).trace = given slot i course ∧
          (strays (s.finish N).trace = [] → OnlyHeldRun slot i (s.finish N).trace) ∧
          Parting slot i ((s.finish N).trace.drop s.trace.length) ∧
          ∀ p ∈ course, p.Accounts slot i) ∧
      ∀ steps, StraysAfterRefusal
        ((MockSession.after steps (Session.start opening {}).2).finish MockHost.native).trace := by
  refine ⟨fun {σ} N native turns => ?_, MockSession.strays_after_refusal opening⟩
  intro start course s
  have hsound : start.stage.Sound := Session.sound_start opening native
  have hs : s.stage.Sound := Session.sound_after hsound turns
  have hc (slot : Slot) (i : Nat) : Client.Custody slot i (given slot i course) [] s.world.client :=
    Session.custody_after hsound (Session.custody_start opening native slot i) turns
  have hrel (slot : Slot) : slot.entry ∉ [EntryPoint.release] := by cases slot <;> decide
  have hend (slot : Slot) (i : Nat) :
      Client.Custody slot i (given slot i course) [] (s.finish N).world.client :=
    (Session.stage_end s).custody hs (hrel slot) (hc slot i)
  have hnone : (s.finish N).holdings = [] := by
    rw [Session.holdings, Session.finish_identities]
    rfl
  refine ⟨Session.gifts_perm hs hc, ?_, fun slot i => ⟨?_, Session.held_of_notMem hs, (hend slot i).taken,
    (hend slot i).runs.only, ?_, ?_⟩⟩
  · have h := Session.gifts_perm (Session.sound_end hs) hend
    rwa [hnone, List.append_nil] at h
  · have h : given slot i course = dropped slot i s.trace ++ s.held slot i ++ [] := (hc slot i).balance
    rwa [List.append_nil] at h
  · obtain ⟨events, ht, hp⟩ := (Session.stage_end (N := N) s).parts (hrel slot) i
    have ht : (s.finish N).trace = s.trace ++ events := ht
    rw [ht, List.drop_left]
    exact hp
  · intro p hp
    obtain ⟨earlier, t, later, -, rfl⟩ := Session.mem_course hp
    obtain ⟨base, hr⟩ := Session.registered_after (N := N) hsound
      (Session.registered_start opening native slot i) earlier
    exact Session.accounts_turn (Session.sound_after hsound earlier) hr
      (Session.custody_after hsound (Session.custody_start opening native slot i) earlier) t

/-- A closure is run, another takes its place, and the solver is released: both have been dropped, and
neither can have been run since. -/
theorem replaced_closure_dropped :
    let turns : List (Turn Nat) := [.client (.create 1), .client (.setTerminate 1 ⟨"t", [], 0⟩),
      .native (.poll (.own 1) fun _ => .done 1), .client (.setTerminate 1 ⟨"u", [], 0⟩),
      .client (.release 1)]
    let trace := (((Session.start .known 0).2.after Constant.native turns).finish Constant.native).trace
    ran .terminate 1 trace = ["t"] ∧ dropped .terminate 1 trace = ["t", "u"] ∧ strays trace = [] ∧
      OnlyHeldRun .terminate 1 trace := by
  intro turns trace
  have htrace : trace = ((Session.start .known 0).2.after Constant.native turns).dropInterface.trace :=
    congrArg Session.trace (Session.finish_of_solvers_nil rfl)
  have hstrays : strays trace = [] := by
    rw [htrace]
    decide
  have h := ((closures_dropped_once .known).1 Constant.native 0 turns).2.2 .terminate 1
  refine ⟨?_, ?_, hstrays, h.2.2.2.1 hstrays⟩
  · rw [htrace]
    decide
  · rw [htrace]
    decide

end SatClient
