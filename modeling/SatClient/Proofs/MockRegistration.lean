import SatClient.Proofs.MockAnswer
import SatClient.Proofs.Roster
import SatClient.Session.Mock

/-!
# Whose bridges the mock holds

A solver ends with its release, also with one that its mock instance refuses. An instance which is
released holds no registration, but one that refuses keeps what it has, and with it the bridge of a
solver that is gone.

* `openings`, `refusals`: the solvers made, with their handles, and those whose release was refused
* `Stage.Claims`: each registration of the mock names a solver that is there, or was refused
* `Stage.Kept`: the invariant; `Stage.Move.kept`: each move of the library keeps it
* `MockSession.Good`: what is kept by all that a test does
* `MockSession.Good.serves_iff`: a registration is of use just until the release of its solver is refused
* **`MockSession.safe_iff`**: so the mock holds no bridge that is gone, just if none of those was refused
-/

namespace SatClient

/-! ## Openings and refusals -/

def Event.opened? : Event → Option (Nat × Handle)
  | opened i h => some (i, h)
  | _ => none

def Event.refused? : Event → Option Nat
  | returned (some i) (.release _) reply => if reply.code.isOk then none else some i
  | _ => none

/-- The solvers made, with their handles. -/
def openings (trace : List Event) : List (Nat × Handle) := trace.filterMap Event.opened?

/-- The solvers whose release has been refused. -/
def refusals (trace : List Event) : List Nat := trace.filterMap Event.refused?

@[simp] theorem openings_append (l l' : List Event) :
    openings (l ++ l') = openings l ++ openings l' := List.filterMap_append

@[simp] theorem refusals_append (l l' : List Event) :
    refusals (l ++ l') = refusals l ++ refusals l' := List.filterMap_append

def Plain (events : List Event) : Prop := openings events = [] ∧ refusals events = []

theorem plain_of_forall {events : List Event}
    (h : ∀ e ∈ events, e.opened? = none ∧ e.refused? = none) : Plain events :=
  ⟨List.filterMap_eq_nil_iff.mpr fun e he => (h e he).1,
    List.filterMap_eq_nil_iff.mpr fun e he => (h e he).2⟩

theorem plain_of_ofVisit {events : List Event} (h : ∀ e ∈ events, e.OfVisit) : Plain events := by
  apply plain_of_forall
  intro e he
  have hv := h e he
  cases e <;> first | exact ⟨rfl, rfl⟩ | cases hv

theorem plain_of_givesBack {i : Nat} {events : List Event} (h : ∀ e ∈ events, e.GivesBack i) :
    Plain events := by
  apply plain_of_forall
  intro e he
  cases h e he <;> exact ⟨rfl, rfl⟩

structure Quiet (trace trace' : List Event) : Prop where
  openings : openings trace' = openings trace
  refusals : refusals trace' = refusals trace

namespace Quiet

variable {t t' t'' events : List Event}

theorem refl (t : List Event) : Quiet t t := ⟨rfl, rfl⟩

theorem trans (h : Quiet t t') (h' : Quiet t' t'') : Quiet t t'' :=
  ⟨h'.openings.trans h.openings, h'.refusals.trans h.refusals⟩

theorem note (t : List Event) (h : Plain events) : Quiet t (t ++ events) := by
  constructor
  · rw [openings_append, h.1, List.append_nil]
  · rw [refusals_append, h.2, List.append_nil]

end Quiet

theorem Client.Visits.quiet {c c' : Client} (h : Client.Visits c c') : Quiet c.trace c'.trace := by
  obtain ⟨events, ht, hv⟩ := h.events
  rw [ht]
  exact .note _ (plain_of_ofVisit hv)

section Call

variable {σ : Type} (N : Native σ) (owner : Option Nat) (a : Address) (c : Call) (w : World σ)

theorem World.call_openings :
    openings (w.call N owner a c).2.client.trace = openings w.client.trace := by
  obtain ⟨events, ht, hv⟩ := World.call_events N owner a c w
  have hc : openings [.called owner a c] = [] := rfl
  have hr : openings [.returned owner c (w.call N owner a c).1] = [] := rfl
  rw [ht]
  simp only [openings_append, hc, hr, (plain_of_ofVisit hv).1, List.append_nil]

theorem World.call_refusals :
    refusals (w.call N owner a c).2.client.trace = refusals w.client.trace ++
      (Event.returned owner c (w.call N owner a c).1).refused?.toList := by
  obtain ⟨events, ht, hv⟩ := World.call_events N owner a c w
  have hc : refusals [.called owner a c] = [] := rfl
  have hr : refusals [.returned owner c (w.call N owner a c).1] =
      (Event.returned owner c (w.call N owner a c).1).refused?.toList := by
    unfold refusals
    rw [List.filterMap_cons]
    cases (Event.returned owner c (w.call N owner a c).1).refused? <;> rfl
  rw [ht]
  simp only [refusals_append, hc, hr, (plain_of_ofVisit hv).2, List.nil_append]

end Call

/-! ## The invariant -/

def Solver.name (s : Solver) : Nat × Handle := (s.identity, s.handle)

namespace Stage

def name? {σ : Type} (st : Stage σ) (key : Int) : Option (Nat × Handle) :=
  (st.solvers.get? key).map Solver.name

def Has {σ : Type} (st : Stage σ) (p : Nat × Handle) : Prop :=
  (∃ key, st.name? key = some p) ∨ st.newborn.map Solver.name = some p

theorem holds_iff {σ : Type} (st : Stage σ) (k : Nat) : st.Holds k ↔ ∃ h, st.Has (k, h) := by
  unfold Holds Has identity? name? Solver.name
  constructor
  · rintro (⟨key, hk⟩ | hn)
    · obtain ⟨solver, hs, rfl⟩ := Option.map_eq_some_iff.mp hk
      exact ⟨solver.handle, .inl ⟨key, by rw [hs]; rfl⟩⟩
    · obtain ⟨solver, hs, rfl⟩ := Option.map_eq_some_iff.mp hn
      exact ⟨solver.handle, .inr (by rw [hs]; rfl)⟩
  · rintro ⟨h, ⟨key, hk⟩ | hn⟩
    · obtain ⟨solver, hs, he⟩ := Option.map_eq_some_iff.mp hk
      cases he
      exact .inl ⟨key, by rw [hs]; rfl⟩
    · obtain ⟨solver, hs, he⟩ := Option.map_eq_some_iff.mp hn
      cases he
      exact .inr (by rw [hs]; rfl)

/-- Each registration of the mock is of a solver made for the instance, which is there or whose
release was refused; others may be registered by `raw` calls only. -/
def Claims (raw : Prop) (st : Stage MockHost) (m : Mock) : Prop :=
  ∀ slot id hook, m.registration slot id = some hook →
    (raw ∧ hook.callback = .foreign) ∨
      ∃ k h, hook = .own k ∧ (k, h) ∈ openings st.world.client.trace ∧ m.instanceAt h = some id ∧
        (st.Holds k ∨ k ∈ refusals st.world.client.trace)

/-- The solvers have the handles which they were made with, and the mock holds no bridges but theirs,
and those of solvers whose release was refused. -/
structure Kept (raw : Prop) (st : Stage MockHost) : Prop where
  opened : ∀ k h, st.Has (k, h) → ∀ h', (k, h') ∈ openings st.world.client.trace ↔ h' = h
  refused : ∀ k ∈ refusals st.world.client.trace, k < st.world.nextIdentity ∧ ¬ st.Holds k
  claims : ∀ m, st.world.native.mock = some m → st.Claims raw m

/-- No registration is new but those of `raw` calls, and instances keep their handles. -/
def Loses (raw : Prop) (host host' : MockHost) : Prop :=
  ∀ m', host'.mock = some m' → ∀ slot id hook, m'.registration slot id = some hook →
    (raw ∧ hook.callback = .foreign) ∨
      ∃ m, host.mock = some m ∧ m.registration slot id = some hook ∧
        ∀ h, m.instanceAt h = some id → m'.instanceAt h = some id

theorem Loses.of_mock_eq {raw : Prop} {host host' : MockHost} (h : host'.mock = host.mock) :
    Loses raw host host' := by
  intro m' hm slot id hook hh
  exact .inr ⟨m', h.symm.trans hm, hh, fun _ hi => hi⟩

theorem Loses.of_alike {raw : Prop} {host host' : MockHost} {m m' : Mock} (h : host.mock = some m)
    (h' : host'.mock = some m') (ha : m.Alike m') : Loses raw host host' := by
  intro m'' hm slot id hook hh
  cases h'.symm.trans hm
  refine .inr ⟨m, h, (ha.registration slot id).symm.trans hh, fun handle hi => ?_⟩
  exact (ha.instanceAt handle).trans hi

variable {raw raw' : Prop} {st st' : Stage MockHost}

/-- What is kept while the solvers are the same, and the mock registers nothing for them. -/
theorem Kept.frame (hk : st.Kept raw) (hraw : raw → raw') (hhas : ∀ p, st'.Has p ↔ st.Has p)
    (hx : st'.world.nextIdentity = st.world.nextIdentity)
    (hq : Quiet st.world.client.trace st'.world.client.trace)
    (hm : Loses raw' st.world.native st'.world.native) : st'.Kept raw' := by
  have hholds (k : Nat) : st'.Holds k ↔ st.Holds k := by
    rw [holds_iff, holds_iff]
    exact exists_congr fun h => hhas (k, h)
  constructor
  · intro k h hh
    rw [hq.openings]
    exact hk.opened k h ((hhas _).mp hh)
  · intro k hr
    rw [hq.refusals] at hr
    rw [hx, hholds]
    exact hk.refused k hr
  · intro m' hm' slot id hook hh
    rcases hm m' hm' slot id hook hh with hnew | ⟨m, hmock, hreg, hinst⟩
    · exact .inl hnew
    · rcases hk.claims m hmock slot id hook hreg with ⟨hr, hf⟩ | ⟨k, h, hown, ho, hi, hs⟩
      · exact .inl ⟨hraw hr, hf⟩
      · refine .inr ⟨k, h, hown, ?_, hinst h hi, ?_⟩
        · rw [hq.openings]
          exact ho
        · rw [hholds, hq.refusals]
          exact hs

/-! ## Moves of the library -/

theorem Kept.call_claims (hk : st.Kept raw) {owner : Option Nat} {a : Address} {c : Call} {w : World MockHost}
    (hw : w.native = st.world.native)
    (hc : ∀ hook : Hook, c.registration? = some (some hook.data, some hook.callback) →
      ∃ k h, hook = .own k ∧ c.handle? = some h ∧ st.Has (k, h)) {m' : Mock}
    (hm' : (w.call MockHost.native owner a c).2.native.mock = some m') : st.Claims raw m' := by
  obtain ⟨m, hm, ha⟩ := (MockHost.call_answered owner a c w).of_mock hm'
  rw [hw] at hm
  intro slot id hook hh
  rcases ha.registration slot id hook hh with hold | ⟨hreg, handle, hhandle, hi⟩
  · rcases hk.claims m hm slot id hook hold with hf | ⟨k, h, hown, ho, hi, hs⟩
    · exact .inl hf
    · exact .inr ⟨k, h, hown, ho, ha.instances h id hi, hs⟩
  · obtain ⟨k, h, hown, hch, hhas⟩ := hc hook hreg
    have he : handle = h := Option.some.inj (hhandle.symm.trans hch)
    rw [he] at hi
    refine .inr ⟨k, h, hown, (hk.opened k h hhas h).mpr rfl, ha.instances h id hi, .inl ?_⟩
    exact (holds_iff st k).mpr ⟨h, hhas⟩

theorem Kept.call (hk : st.Kept raw) {owner : Option Nat} {a : Address} {c : Call}
    (hc : ∀ hook : Hook, c.registration? = some (some hook.data, some hook.callback) →
      ∃ k h, hook = .own k ∧ c.handle? = some h ∧ st.Has (k, h))
    (hn : (Event.returned owner c (st.world.call MockHost.native owner a c).1).refused? = none) :
    Kept raw { st with world := (st.world.call MockHost.native owner a c).2 } := by
  have ho := World.call_openings MockHost.native owner a c st.world
  have hr := World.call_refusals MockHost.native owner a c st.world
  rw [hn, Option.toList_none, List.append_nil] at hr
  constructor
  · intro k h hh
    rw [ho]
    exact hk.opened k h hh
  · intro k hkr
    rw [hr] at hkr
    exact hk.refused k hkr
  · intro m' hm' slot id hook hh
    rw [ho, hr]
    exact hk.call_claims rfl hc hm' slot id hook hh

theorem Kept.note {events : List Event} (hk : st.Kept raw) (hp : Plain events) :
    Kept raw { st with world := st.world.note events } :=
  hk.frame id (fun _ => Iff.rfl) rfl (.note _ hp) (.of_mock_eq rfl)

theorem Kept.operate (hk : st.Kept raw) {es : List EntryPoint} {key : Int} {solver : Solver}
    {f : Focus MockHost} (hs : st.solvers.get? key = some solver)
    (h : Solver.Move MockHost.native es ⟨solver, st.world⟩ f) :
    Kept raw { st with world := f.world, solvers := st.solvers.set key f.solver } := by
  have hname : st.name? key = some solver.name := by
    rw [name?, hs]
    rfl
  have hf : f.solver.name = solver.name := by
    obtain ⟨hi, hh, -⟩ := h.solver_eq
    exact Prod.ext hi hh
  have hhas (w : World MockHost) (p : Nat × Handle) :
      Has { st with world := w, solvers := st.solvers.set key f.solver } p ↔ st.Has p := by
    have hn (j : Int) : name? { st with world := w, solvers := st.solvers.set key f.solver } j =
        st.name? j := by
      unfold name?
      rw [Keyed.get?_set]
      by_cases hj : key = j
      · subst hj
        rw [if_pos rfl, hs]
        exact congrArg some hf
      · rw [if_neg hj]
    unfold Has
    simp only [hn]
  have hplain {w : World MockHost} (hx : w.nextIdentity = st.world.nextIdentity)
      (hq : Quiet st.world.client.trace w.client.trace) (hn : w.native = st.world.native) :
      Kept raw { st with world := w, solvers := st.solvers.set key f.solver } :=
    hk.frame id (hhas w) hx hq (.of_mock_eq (congrArg MockHost.mock hn))
  cases h with
  | call he hc =>
    rename_i c
    have hcall : Kept raw { st with world := (st.world.call MockHost.native (some solver.identity)
        (solver.symbols c.entry) c).2 } := by
      apply hk.call
      · intro hook hreg
        refine ⟨solver.identity, solver.handle, ?_, hc.handle, .inl ⟨key, hname⟩⟩
        rcases hc.registration _ hreg with h | h
        · cases hook
          cases h
          rfl
        · cases h
      · have hl := hc.live
        cases c <;> first | rfl | exact absurd rfl hl
    exact hcall.frame id (hhas _) rfl (.refl _) (.of_mock_eq rfl)
  | tell n => exact hplain rfl (.note _ ⟨rfl, rfl⟩) rfl
  | buffer b => exact hplain rfl (.refl _) rfl
  | options he => exact hplain rfl (.refl _) rfl
  | resume he hp => exact hplain rfl (.note _ ⟨rfl, rfl⟩) rfl
  | take he => exact hplain rfl (.note _ ⟨rfl, rfl⟩) rfl
  | drop he => exact hplain rfl (.note _ ⟨rfl, rfl⟩) rfl
  | settleTerminate he =>
    have hp := plain_of_givesBack
      (Bridge.dropEvents_givesBack solver.identity (Focus.bridge ⟨solver, st.world⟩) .terminate)
    exact hplain rfl (.note _ hp) rfl
  | settleExporter he =>
    have hp := plain_of_givesBack
      (Bridge.dropEvents_givesBack solver.identity (Focus.bridge ⟨solver, st.world⟩) .exporter)
    exact hplain rfl (.note _ hp) rfl

theorem Kept.beget (hk : st.Kept raw) (hs : st.Sound) (hn : st.newborn = none) (symbols : Symbols)
    (handle : Handle) :
    Kept raw { st with
      world := st.world.opened handle, newborn := some (st.world.newborn symbols handle) } := by
  let st' : Stage MockHost := { st with
    world := st.world.opened handle, newborn := some (st.world.newborn symbols handle) }
  have hholds {k : Nat} (h : st.Holds k) : k < st.world.nextIdentity := hs.fresh k ((hs.held k).mpr h)
  have hopen : openings st'.world.client.trace =
      openings st.world.client.trace ++ [(st.world.nextIdentity, handle)] := openings_append _ _
  have href : refusals st'.world.client.trace = refusals st.world.client.trace :=
    (refusals_append _ _).trans (List.append_nil _)
  have hhas (p : Nat × Handle) : st'.Has p ↔ st.Has p ∨ p = (st.world.nextIdentity, handle) := by
    have hnew : st'.newborn.map Solver.name = some (st.world.nextIdentity, handle) := rfl
    unfold Has
    simp only [hn, hnew, Option.map_none, reduceCtorEq, or_false, Option.some.injEq]
    exact or_congr Iff.rfl eq_comm
  have hholds' (k : Nat) : st'.Holds k ↔ st.Holds k ∨ k = st.world.nextIdentity := by
    simp [holds_iff, hhas, exists_or]
  -- an opening that has been noted is of a solver with a smaller identity
  have hold {k h : Nat} (h : (k, h) ∈ openings st.world.client.trace) : k < st.world.nextIdentity := by
    obtain ⟨e, he, ho⟩ := List.mem_filterMap.mp h
    cases e <;> cases ho
    exact hs.owners _ he _ rfl
  constructor
  · intro k h hh h'
    rw [hopen, List.mem_append, List.mem_singleton]
    rcases (hhas _).mp hh with hh | hh
    · have hlt := hholds ((holds_iff st k).mpr ⟨h, hh⟩)
      have hne : (k, h') ≠ (st.world.nextIdentity, handle) := by
        rintro ⟨⟩
        omega
      rw [or_iff_left hne]
      exact hk.opened k h hh h'
    · cases hh
      have hno : (st.world.nextIdentity, h') ∉ openings st.world.client.trace := by
        intro h
        have := hold h
        omega
      rw [or_iff_right hno, Prod.mk.injEq]
      simp
  · intro k hkr
    rw [href] at hkr
    obtain ⟨hlt, hnot⟩ := hk.refused k hkr
    refine ⟨Nat.lt_succ_of_lt hlt, ?_⟩
    rw [hholds']
    rintro (h | h)
    · exact hnot h
    · omega
  · intro m hm slot id hook hh
    rcases hk.claims m hm slot id hook hh with hf | ⟨k, h, hown, ho, hi, hs⟩
    · exact .inl hf
    · refine .inr ⟨k, h, hown, ?_, hi, ?_⟩
      · rw [hopen]
        exact List.mem_append_left _ ho
      · rw [hholds', href]
        exact hs.imp_left .inl

theorem Kept.keep (hk : st.Kept raw) {key : Int} {solver : Solver} (hn : st.newborn = some solver)
    (hs : st.solvers.get? key = none) :
    Kept raw { st with solvers := st.solvers.set key solver, newborn := none } := by
  refine hk.frame id ?_ rfl (.refl _) (.of_mock_eq rfl)
  intro p
  have hname (j : Int) : name? { st with solvers := st.solvers.set key solver, newborn := none } j =
      if key = j then some solver.name else st.name? j := by
    unfold name?
    rw [Keyed.get?_set]
    split_ifs <;> rfl
  have hkey : st.name? key = none := by
    rw [name?, hs]
    rfl
  unfold Has
  rw [hn, Option.map_none, Option.map_some, or_iff_left (by simp)]
  constructor
  · rintro ⟨j, hj⟩
    rw [hname] at hj
    split_ifs at hj
    · exact .inr hj
    · exact .inl ⟨j, hj⟩
  · rintro (⟨j, hj⟩ | hp)
    · refine ⟨j, ?_⟩
      have hne : key ≠ j := by
        rintro rfl
        rw [hkey] at hj
        cases hj
      rw [hname, if_neg hne]
      exact hj
    · exact ⟨key, by rw [hname, if_pos rfl]; exact hp⟩

/-- What the instance of a solver has registered goes with a release that succeeds. -/
theorem Kept.released (hk : st.Kept raw) {solver : Solver} (hhas : st.Has solver.name)
    {owner : Option Nat} {a : Address} {m' : Mock}
    (hm' : (st.world.call MockHost.native owner a (.release solver.handle)).2.native.mock = some m')
    (hok : (st.world.call MockHost.native owner a (.release solver.handle)).1.code.isOk)
    {slot : Slot} {id : Nat} {h : Handle}
    (ho : (solver.identity, h) ∈ openings st.world.client.trace) (hi : m'.instanceAt h = some id) :
    m'.registration slot id = none := by
  have hh : h = solver.handle := (hk.opened _ _ hhas h).mp ho
  obtain ⟨m, -, ha⟩ := (MockHost.call_answered owner a (.release solver.handle) st.world).of_mock hm'
  obtain ⟨id', hi', hnone⟩ := ha.released _ rfl hok
  have hid : some id' = some id := (ha.instances _ _ hi').symm.trans (hh ▸ hi)
  cases hid
  exact hnone slot

/-- **The end of a solver.** What its instance has registered goes with it, unless the release is
refused. -/
theorem Kept.finish (hk : st.Kept raw) (hs : st.Sound) {es : List EntryPoint} {key : Int}
    {solver : Solver} {events : List Event} (he : .release ∈ es)
    (hsolver : st.solvers.get? key = some solver) (ht : ∀ e ∈ events, ∃ n, e = .notice n) :
    Kept raw { st with
      world := Solver.close (((⟨solver, st.world⟩ : Focus MockHost).call MockHost.native
        (.release solver.handle)).2.note events)
      solvers := st.solvers.erase key } := by
  let c : Call := .release solver.handle
  let called := st.world.call MockHost.native (some solver.identity) (solver.symbols c.entry) c
  let st' : Stage MockHost := { st with
    world := Solver.close (((⟨solver, st.world⟩ : Focus MockHost).call MockHost.native c).2.note events)
    solvers := st.solvers.erase key }
  have hsound : st'.Sound := (Move.finish events he hsolver ht).sound hs
  have hhas {p : Nat × Handle} (h : st'.Has p) : st.Has p := by
    rcases h with ⟨j, hj⟩ | hn
    · have hj : (Keyed.get? (st.solvers.erase key) j).map Solver.name = some p := hj
      rw [Keyed.get?_erase hs.keys] at hj
      split_ifs at hj
      · cases hj
      · exact .inl ⟨j, hj⟩
    · exact .inr hn
  have hholds (k : Nat) : st'.Holds k ↔ k ≠ solver.identity ∧ st.Holds k := by
    have hkeys : st'.world.client.bridges.keys = st.world.client.bridges.keys.erase solver.identity := by
      rw [← (hs.call_keeps (N := MockHost.native) hsolver c).keys]
      exact Keyed.keys_erase _ _
    rw [← hsound.held, ← hs.held, hkeys, hs.bridges.mem_erase_iff]
  -- the release may be refused, and nothing of the kind happens after it
  have hquiet : Quiet called.2.client.trace st'.world.client.trace := by
    have hn : Plain events := by
      apply plain_of_forall
      intro e he
      obtain ⟨n, rfl⟩ := ht e he
      exact ⟨rfl, rfl⟩
    obtain ⟨rest, hrest, hback⟩ := Solver.close_trace
      (((⟨solver, st.world⟩ : Focus MockHost).call MockHost.native c).2.note events)
    show Quiet _ (Solver.close _).client.trace
    rw [hrest]
    exact (Quiet.note _ hn).trans (.note _ (plain_of_givesBack hback))
  have hopen : openings st'.world.client.trace = openings st.world.client.trace :=
    hquiet.openings.trans (World.call_openings _ _ _ _ _)
  have href : refusals st'.world.client.trace = refusals st.world.client.trace ++
      if called.1.code.isOk then [] else [solver.identity] := by
    rw [hquiet.refusals, World.call_refusals]
    show _ ++ (if called.1.code.isOk then none else some solver.identity).toList = _
    by_cases hok : called.1.code.isOk
    · rw [if_pos hok, if_pos hok]
      rfl
    · rw [if_neg hok, if_neg hok]
      rfl
  have hname : st.Has solver.name := .inl ⟨key, by rw [name?, hsolver]; rfl⟩
  constructor
  · intro k h hh h'
    rw [hopen]
    exact hk.opened k h (hhas hh) h'
  · intro k hkr
    rw [href, List.mem_append] at hkr
    rw [hholds]
    rcases hkr with hkr | hkr
    · obtain ⟨hlt, hnot⟩ := hk.refused k hkr
      exact ⟨hlt, fun h => hnot h.2⟩
    · split_ifs at hkr
      · cases hkr
      · rw [List.mem_singleton.mp hkr]
        exact ⟨hs.fresh _ (hs.bridge_of_get? hsolver), fun h => h.1 rfl⟩
  · intro m' hm' slot id hook hh
    have hclaims : st.Claims raw m' := hk.call_claims rfl (fun _ h => by cases h) hm'
    rcases hclaims slot id hook hh with hf | ⟨k, h, hown, ho, hi, hor⟩
    · exact .inl hf
    refine .inr ⟨k, h, hown, ?_, hi, ?_⟩
    · rw [hopen]
      exact ho
    rw [hholds, href, List.mem_append]
    rcases hor with hold | hold
    · by_cases hkid : k = solver.identity
      · subst hkid
        by_cases hok : called.1.code.isOk
        · rw [hk.released hname hm' hok ho hi] at hh
          cases hh
        · rw [if_neg hok]
          exact .inr (.inr (List.mem_singleton_self _))
      · exact .inl ⟨hkid, hold⟩
    · exact .inr (.inl hold)

/-- **Each move of the library keeps what the mock holds in order.** -/
theorem Move.kept {es : List EntryPoint} (h : Move MockHost.native es st st') (hs : st.Sound)
    (hk : st.Kept raw) : st'.Kept raw := by
  cases h with
  | tell n => exact hk.note ⟨rfl, rfl⟩
  | unload => exact hk.note ⟨rfl, rfl⟩
  | @ask a c he hc =>
    refine hk.call ?_ rfl
    intro hook hreg
    cases c <;> cases hc <;> cases hreg
  | operate hsolver h => exact hk.operate hsolver h
  | beget he hn => exact hk.beget hs hn _ _
  | keep hn hsolver => exact hk.keep hn hsolver
  | finish events he hsolver ht => exact hk.finish hs he hsolver ht

end Stage

/-! ## What the mock is told -/

/-- What a step tells the mock. -/
def MockStep.told? : MockStep → Option (Mock → Except Mock.Trouble Mock)
  | expectInit id => some (·.expectInit id)
  | expectInitFailure code => some fun m => .ok (m.expectInitFailure code)
  | expect id call => some fun m => .ok (m.expectCall id call)
  | setSignature text code => some (·.setSignature text code)
  | setOptions id offers => some (·.setOptions id offers)
  | _ => none

/-- What the mock is told makes no instance, registers nothing and is no fault; an instance is expected
only if it has not been made. -/
structure Mock.Told (m m' : Mock) : Prop where
  alike : m.Alike m'
  faults : m'.faults = m.faults
  keys : m.instances.keys.Nodup → m'.instances.keys.Nodup
  made : ∀ id, (m'.instanceOf id).initialised = (m.instanceOf id).initialised
  pending : ∀ p id, m'.pending = some p → p.instance? = some id →
    m.pending = some p ∨ (m.instanceOf id).initialised = false

namespace Mock

variable {m m' : Mock}

theorem Told.change {id : Nat} {f : Instance → Instance} (m : Mock)
    (hf : ∀ i, (f i).initialised = i.initialised) (hh : ∀ i slot, (f i).hook slot = i.hook slot) :
    m.Told (m.change id f) := by
  refine ⟨.change hh m, rfl, fun hk => Keyed.nodup_keys_set hk _ _, fun j => ?_, fun _ _ hp _ => .inl hp⟩
  rw [instanceOf_change]
  split_ifs
  · exact hf _
  · rfl

theorem expectInit_eq {id : Nat} (hm : expectInit id m = .ok m') :
    m.pending = none ∧ m' = { m with pending := some ⟨some id, .ok⟩ } := by
  unfold expectInit at hm
  split_ifs at hm with hp
  cases hm
  exact ⟨Option.not_isSome_iff_eq_none.mp hp, rfl⟩

theorem setSignature_eq {text : Option String} {code : Code} (hm : setSignature text code m = .ok m') :
    ∃ bytes, m' = { m with signature := some (bytes, code) } := by
  unfold setSignature at hm
  cases text with
  | none =>
    cases hm
    exact ⟨none, rfl⟩
  | some text =>
    dsimp only at hm
    cases hb : bytesOf "signature" text with
    | error t =>
      rw [hb] at hm
      cases hm
    | ok bytes =>
      rw [hb] at hm
      cases hm
      exact ⟨some bytes, rfl⟩

theorem setOptions_eq {id : Nat} {offers : List Offer} (hm : setOptions id offers m = .ok m') :
    ∃ rows, m' = m.addTable id rows := by
  unfold setOptions at hm
  cases hb : offers.mapM Offer.description with
  | error t =>
    rw [hb] at hm
    cases hm
  | ok rows =>
    rw [hb] at hm
    cases hm
    exact ⟨rows, rfl⟩

theorem told_of_step {t : MockStep} {f : Mock → Except Trouble Mock} (ht : t.told? = some f)
    (hm : f m = .ok m') : m.Told m' := by
  cases t with
  | expectInit id =>
    cases ht
    unfold expectInit at hm
    dsimp only at hm
    split_ifs at hm with hp hi
    cases hm
    refine ⟨⟨rfl, fun _ _ => rfl⟩, rfl, fun h => h, fun _ => rfl, ?_⟩
    rintro p j ⟨⟩ ⟨⟩
    refine .inr ?_
    unfold instanceOf
    cases hg : m.instances.get? id with
    | none => rfl
    | some i =>
      rw [hg] at hi
      exact Bool.not_eq_true _ ▸ hi
  | expectInitFailure code =>
    cases ht
    cases hm
    refine ⟨⟨rfl, fun _ _ => rfl⟩, rfl, fun h => h, fun _ => rfl, ?_⟩
    rintro p j ⟨⟩ ⟨⟩
  | expect id call =>
    cases ht
    cases hm
    exact .change m (fun _ => rfl) fun _ slot => by cases slot <;> rfl
  | setSignature text code =>
    cases ht
    obtain ⟨bytes, rfl⟩ := setSignature_eq hm
    exact ⟨⟨rfl, fun _ _ => rfl⟩, rfl, fun h => h, fun _ => rfl, fun _ _ hp _ => .inl hp⟩
  | setOptions id offers =>
    cases ht
    obtain ⟨rows, rfl⟩ := setOptions_eq hm
    have hadd : Told { m with tables := m.tables ++ [rows ++ [.last]] } (m.addTable id rows) := by
      unfold addTable
      exact .change _ (fun _ => rfl) fun _ slot => by cases slot <;> rfl
    exact ⟨.addTable id rows m, rfl, hadd.keys, hadd.made, fun _ _ hp _ => .inl hp⟩
  | _ => cases ht

end Mock

/-! ## Sessions with the mock -/

/-- Whether a step calls the mock without the library. -/
def MockStep.isRaw : MockStep → Bool
  | raw .. => true
  | _ => false

namespace MockSession

variable {raw raw' : Prop} {s : Session MockHost}

def after (steps : List MockStep) (s : Session MockHost) : Session MockHost :=
  steps.foldl (fun s t => (step t s).2) s

/-- What is kept by all that a test does. -/
structure Good (raw : Prop) (s : Session MockHost) : Prop where
  sound : s.stage.Sound
  kept : s.stage.Kept raw

theorem Good.mono (h : Good raw s) (hr : raw → raw') : Good raw' s :=
  ⟨h.sound, h.kept.frame hr (fun _ => Iff.rfl) rfl (.refl _) (.of_mock_eq rfl)⟩

theorem Good.setHost {host' : MockHost} (h : Good raw s) (hr : raw → raw')
    (hm : Stage.Loses raw' (host s) host') : Good raw' (setHost host' s) :=
  ⟨h.sound.of_client rfl (.refl _ _), h.kept.frame hr (fun _ => Iff.rfl) rfl (.refl _) hm⟩

theorem Good.setMock {m m' : Mock} (h : Good raw s) (hm : (host s).mock = some m) (ha : m.Alike m') :
    Good raw (setMock (some m') s) := h.setHost id (.of_alike hm rfl ha)

theorem Good.converse {β : Type} (h : Good raw s) (d : Dialogue β) : Good raw (s.converse d).2 := by
  have hv := d.run_visits s.world.client
  refine ⟨h.sound.of_client rfl (hv.keeps h.sound.fresh), ?_⟩
  exact h.kept.frame id (fun _ => Iff.rfl) rfl hv.quiet (.of_mock_eq rfl)

theorem Good.onThread {f : Session MockHost → Answer × Session MockHost} (h : Good raw s)
    (hf : ∀ s, Good raw s → Good raw' (f s).2) (b : Bool) : Good raw' (onThread b f s).2 := by
  let s₁ := MockSession.setHost { host s with onThread := b } s
  let s₂ := (f s₁).2
  have h₁ : Good raw s₁ := h.setHost id (.of_mock_eq rfl)
  have hm : Stage.Loses raw' (host s₂) { host s₂ with onThread := true } := .of_mock_eq rfl
  exact (hf s₁ h₁).setHost id hm

theorem Good.client (h : Good raw s) (action : Step) :
    Good raw (s.step MockHost.native action).2 := by
  have hm := Session.step_moves (N := MockHost.native) h.sound.keys action
  exact ⟨hm.sound h.sound,
    Stage.Moves.induct (fun _ _ hmove hs hk => hmove.kept hs hk) hm h.sound h.kept⟩

theorem Good.rawCall (h : Good raw s) (key : Option Int) (c : RawCall) :
    Good True (MockSession.raw key c s).2 := by
  let handle := (key.map s.handleOf).getD 0
  let d := (host s).respond (c.call handle)
  have ha : (host s).Answered (c.call handle) (d.run s.world.client).1 :=
    ((host s).respond_ends (c.call handle)).run _
  refine (h.converse d).setHost (fun _ => trivial) ?_
  intro m' hm' slot id hook hh
  obtain ⟨m, hm, ha⟩ := ha.of_mock hm'
  rcases ha.registration slot id hook hh with hold | ⟨hreg, -⟩
  · exact .inr ⟨m, hm, hold, fun handle hi => ha.instances handle id hi⟩
  · refine .inl ⟨trivial, ?_⟩
    obtain ⟨function, own⟩ := hook
    cases c with
    | setTerminate data callback =>
      cases data <;> cases callback <;> cases hreg
      rfl
    | setExport data callback maxLength =>
      cases data <;> cases callback <;> cases hreg
      rfl
    | _ => cases hreg

/-! ## Steps of a test -/

theorem Good.told (h : Good raw s) {t : MockStep} {f : Mock → Except Mock.Trouble Mock}
    (ht : t.told? = some f) : Good raw (tell f s).2 := by
  unfold MockSession.tell onMock
  cases hm : (host s).mock with
  | none => exact h
  | some m =>
    dsimp only
    cases hr : f m with
    | ok m' => exact h.setMock hm (Mock.told_of_step ht hr).alike
    | error t => exact h

theorem Good.ask (h : Good raw s) (f : Mock → Answer) : Good raw (ask f s).2 := by
  unfold MockSession.ask onMock
  cases (host s).mock <;> exact h

theorem Good.simulate (h : Good raw s) (slot : Slot) (id : Nat) (dialogue : Hook → Dialogue Answer) :
    Good raw (simulate slot id dialogue s).2 := by
  unfold MockSession.simulate onMock
  cases (host s).mock with
  | none => exact h
  | some m =>
    dsimp only
    cases m.hook slot id with
    | error t => exact h
    | ok hook => exact h.converse _

theorem Good.forgets {m? : Option Mock} (h : Good raw s)
    (hm : ∀ m, m? = some m → ∀ slot id, m.registration slot id = none) :
    Good raw (MockSession.setMock m? s) := by
  refine h.setHost id ?_
  intro m' hm' slot id hook hh
  rw [hm m' hm' slot id] at hh
  cases hh

/-- A step of a test keeps what the mock holds in order. -/
theorem Good.step (h : Good raw s) (t : MockStep) : Good (raw ∨ t.isRaw) (step t s).2 := by
  by_cases hraw : t.isRaw
  · cases t with
    | raw key c b =>
      have hr := h.onThread (fun s hs => hs.rawCall key c) b
      exact hr.mono fun _ => .inr rfl
    | _ => cases hraw
  · refine Good.mono ?_ Or.inl
    cases t with
    | raw key c b => exact absurd rfl hraw
    | client action b => exact h.onThread (fun s hs => hs.client action) b
    | expectInit id => exact h.told (t := .expectInit id) rfl
    | expectInitFailure code => exact h.told (t := .expectInitFailure code) rfl
    | expect id call => exact h.told (t := .expect id call) rfl
    | setSignature text code => exact h.told (t := .setSignature text code) rfl
    | setOptions id offers => exact h.told (t := .setOptions id offers) rfl
    | simulateTerminate id => exact h.simulate _ _ _
    | simulateExport id clause => exact h.simulate _ _ _
    | outstanding => exact h.ask _
    | faults => exact h.ask _
    | takeFaults =>
      unfold MockSession.step onMock
      cases hm : (host s).mock with
      | none => exact h
      | some m => exact h.setMock hm ⟨rfl, fun _ _ => rfl⟩
    | verify => exact h.ask _
    | dropMock =>
      unfold MockSession.step dropMock
      split_ifs
      · cases (host s).mock with
        | none => exact h
        | some m => exact h.forgets (by rintro m ⟨⟩)
      · exact h
    | newMock =>
      unfold MockSession.step newMock
      split_ifs
      · exact h
      · refine h.forgets ?_
        rintro m ⟨⟩ slot id
        cases slot <;> rfl

/-- By induction on the steps. -/
theorem Good.after (h : Good raw s) (steps : List MockStep) :
    Good (raw ∨ ∃ t ∈ steps, t.isRaw = true) (after steps s) := by
  induction steps generalizing raw s with
  | nil => exact h.mono .inl
  | cons t ts ih =>
    refine (ih (h.step t)).mono ?_
    rintro ((hr | ht) | ⟨u, hu, hraw⟩)
    · exact .inl hr
    · exact .inr ⟨t, List.mem_cons_self, ht⟩
    · exact .inr ⟨u, List.mem_cons_of_mem _ hu, hraw⟩

theorem good_start (opening : Session.Opening) :
    Good False (Session.start opening ({} : MockHost)).2 := by
  refine ⟨Session.sound_start opening _, ?_⟩
  obtain ⟨trace, hs, ho⟩ := Session.start_stage opening ({} : MockHost)
  have hplain : Plain trace := by
    apply plain_of_forall
    intro e he
    obtain ⟨hown, hnote⟩ := ho e he
    cases e <;> first | exact ⟨rfl, rfl⟩ | exact hnote.elim | cases hown
  rw [hs]
  constructor
  · rintro k h (⟨key, hk⟩ | hn)
    · cases hk
    · cases hn
  · intro k hk
    rw [show refusals _ = _ from hplain.2] at hk
    cases hk
  · rintro m ⟨⟩ slot id hook hh
    cases slot <;> cases hh

/-! ## The bridges which the mock holds -/

/-- The bridge of the solver `k` is there, and the solver was made for the instance. -/
structure Serves (s : Session MockHost) (m : Mock) (id k : Nat) : Prop where
  bridge : k ∈ s.world.client.bridges.keys
  solver : ∃ key solver, s.solvers.get? key = some solver ∧ solver.identity = k ∧
    m.instanceAt solver.handle = some id

/-- The mock holds no bridge that is gone, nor one of a solver made for another instance. -/
def Safe (s : Session MockHost) : Prop :=
  ∀ m, (host s).mock = some m → ∀ slot id hook, m.hook slot id = .ok hook →
    hook.callback = .trampoline → Serves s m id hook.data

theorem registration_of_hook {m : Mock} {slot : Slot} {id : Nat} {hook : Hook}
    (h : m.hook slot id = .ok hook) : m.registration slot id = some hook := by
  rw [Mock.hook_eq] at h
  cases hr : m.registration slot id with
  | none =>
    rw [hr] at h
    cases h
  | some hook' =>
    rw [hr] at h
    exact congrArg some (Except.ok.inj h)

/-- **A registration is of use just until the release of its solver is refused.** -/
theorem Good.serves_iff (h : Good raw s) {m : Mock} (hm : (host s).mock = some m) {slot : Slot}
    {id : Nat} {hook : Hook} (hh : m.hook slot id = .ok hook) (hc : hook.callback = .trampoline) :
    Serves s m id hook.data ↔ hook.data ∉ refusals s.trace := by
  rcases h.kept.claims m hm slot id hook (registration_of_hook hh) with
    ⟨-, hf⟩ | ⟨k, handle, rfl, ho, hi, hor⟩
  · rw [hc] at hf
    cases hf
  show Serves s m id k ↔ k ∉ refusals s.trace
  constructor
  · intro hs hr
    exact (h.kept.refused k hr).2 ((h.sound.held k).mp hs.bridge)
  · intro hr
    have hholds : s.stage.Holds k := hor.resolve_right hr
    refine ⟨(h.sound.held k).mpr hholds, ?_⟩
    rcases hholds with ⟨key, hkey⟩ | hn
    · obtain ⟨solver, hsolver, rfl⟩ := Option.map_eq_some_iff.mp hkey
      have hhas : s.stage.Has solver.name := .inl ⟨key, congrArg (Option.map Solver.name) hsolver⟩
      have hhandle : handle = solver.handle := (h.kept.opened _ _ hhas handle).mp ho
      exact ⟨key, solver, hsolver, rfl, hhandle ▸ hi⟩
    · cases hn

/-- **The mock holds no bridge that is gone, unless it has refused to release the solver.** Whatever
a test does, each registration is of a solver that is there and was made for the instance, just if no
solver with a registration has had its release refused; and none is of someone else, unless the test
calls the mock without the library. -/
theorem safe_iff (opening : Session.Opening) (steps : List MockStep) :
    let s := after steps (Session.start opening {}).2
    (Safe s ↔ ∀ m, (host s).mock = some m → ∀ slot id k, m.hook slot id = .ok (.own k) →
      k ∉ refusals s.trace) ∧
    ∀ m, (host s).mock = some m → ∀ slot id hook, m.hook slot id = .ok hook →
      hook.callback = .trampoline ∨ ∃ t ∈ steps, t.isRaw = true := by
  intro s
  have h : Good (False ∨ ∃ t ∈ steps, t.isRaw = true) s := (good_start opening).after steps
  refine ⟨⟨?_, ?_⟩, ?_⟩
  · intro hs m hm slot id k hh
    exact (h.serves_iff hm hh rfl).mp (hs m hm slot id _ hh rfl)
  · intro hr m hm slot id hook hh hc
    obtain ⟨function, k⟩ := hook
    cases hc
    exact (h.serves_iff hm hh rfl).mpr (hr m hm slot id k hh)
  · intro m hm slot id hook hh
    rcases h.kept.claims m hm slot id hook (registration_of_hook hh) with
      ⟨hraw, -⟩ | ⟨k, handle, rfl, -⟩
    · exact .inr (hraw.resolve_left not_false)
    · exact .inl rfl

/-- An instance that still expects a call is not released, and keeps the bridge of the solver, which
is gone. -/
theorem not_safe_of_refused : ¬ Safe (after [.expectInit 1, .client (.create 1) true,
    .expect 1 ⟨.setTerminate true, .ok⟩, .client (.setTerminate 1 ⟨"t", [], 0⟩) true,
    .expect 1 ⟨.add [1] 0, .ok⟩, .client (.release 1) true] (Session.start .known {}).2) := by
  intro h
  have hs := h _ rfl .terminate 1 (.own 1) rfl rfl
  exact absurd hs.bridge (by decide)

end MockSession
end SatClient
