import Mathlib.Tactic.Choose
import SatClient.Constant
import SatClient.Proofs.Interleaving
import SatClient.Proofs.Settled

/-!
# Portfolios

Several solvers work side by side, each at a sequence of steps of its own. In which order their steps
are taken makes no difference to any of them, as long as each keeps to its own sequence.

* `Portfolio`: sequences of steps for solvers that are there
* `Interleaves`: all their steps, in an order which keeps that of each sequence
* `Indistinct`: two runs that are the same for a solver
* `portfolio_serial`: a run is the same for each solver as that of one sequence after the other
* **`portfolio_order_immaterial`**: so it is with any native solver that keeps its handles apart, and
  with the mock, down to its queues and registrations
-/

namespace SatClient

variable {σ τ ω ρ ι : Type} {N : Native σ} {A : N.Apart τ ω ρ}

/-! ## Sequences -/

/-- Sequences of steps for solvers that are there, each with a handle of its own. Each step is with the
solver of its sequence, and the kept options that are named in one sequence are named in no other. -/
structure Portfolio (key : ι → Option Int) (names : ι → List String) (ks : List Int)
    (seq : Int → List ι) (s : Session σ) : Prop where
  keys : ks.Nodup
  there : ∀ k ∈ ks, ∃ x, s.solvers.get? k = some x ∧ x.handle ≠ 0
  handles : ∀ k ∈ ks, ∀ k' ∈ ks, ∀ x x', s.solvers.get? k = some x → s.solvers.get? k' = some x' →
    x.handle = x'.handle → k = k'
  steps : ∀ k ∈ ks, ∀ i ∈ seq k, key i = some k
  names : ∀ k ∈ ks, ∀ k' ∈ ks, k ≠ k' → ∀ i ∈ seq k, ∀ i' ∈ seq k', ∀ n ∈ names i, n ∉ names i'

/-- The steps of all sequences and no others, each sequence in its order. -/
structure Interleaves (key : ι → Option Int) (ks : List Int) (seq : Int → List ι) (is : List ι) :
    Prop where
  steps : ∀ i ∈ is, ∃ k ∈ ks, key i = some k
  order : ∀ k ∈ ks, is.filter (fun i => key i = some k) = seq k

/-- All but one of the parts are empty. -/
theorem flatMap_only {ks : List Int} (hks : ks.Nodup) {k : Int} (hk : k ∈ ks) (l : List ι) :
    (ks.flatMap fun j => if j = k then l else []) = l := by
  induction ks with
  | nil => cases hk
  | cons j ks ih =>
    obtain ⟨hnot, hks⟩ := List.nodup_cons.mp hks
    rw [List.flatMap_cons]
    by_cases hj : j = k
    · have hnil : (ks.flatMap fun j => if j = k then l else []) = [] :=
        List.flatMap_eq_nil_iff.mpr fun i hi => if_neg fun hik : i = k => hnot ((hj.trans hik.symm) ▸ hi)
      rw [if_pos hj, hnil, List.append_nil]
    · rw [if_neg hj, List.nil_append]
      exact ih hks ((List.mem_cons.mp hk).resolve_left (Ne.symm hj))

/-- One sequence after the other. -/
theorem Portfolio.interleaves {key : ι → Option Int} {names : ι → List String} {ks : List Int}
    {seq : Int → List ι} {s : Session σ} (h : Portfolio key names ks seq s) :
    Interleaves key ks seq (ks.flatMap seq) := by
  refine ⟨fun i hi => ?_, fun k hk => ?_⟩
  · obtain ⟨k, hk, hi⟩ := List.mem_flatMap.mp hi
    exact ⟨k, hk, h.steps k hk i hi⟩
  · have hown (k' : Int) (hk' : k' ∈ ks) :
        (seq k').filter (fun i => key i = some k) = if k' = k then seq k else [] := by
      split_ifs with he
      · subst he
        exact List.filter_eq_self.mpr fun i hi => decide_eq_true (h.steps k' hk' i hi)
      · refine List.filter_eq_nil_iff.mpr fun i hi hik => he ?_
        exact Option.some.inj ((h.steps k' hk' i hi).symm.trans (of_decide_eq_true hik))
    rw [List.filter_flatMap, List.flatMap_congr hown, flatMap_only h.keys hk]

/-! ## What is read off a run -/

/-- The answers to the steps with a solver, and what was seen to happen in each. -/
def reportsOf (key : ι → Option Int) (k : Int) (is : List ι) (rs : List Report) :
    List (Answer × List Event) :=
  ((is.zip rs).filter fun r => key r.1 = some k).map fun r => (r.2.answer, seen r.2.trace)

/-- All that happened in a run. -/
def eventsIn (rs : List Report) : List Event := rs.flatMap Report.trace

/-- A call with a handle. -/
def Event.isCallWith (h : Handle) : Event → Bool
  | called _ _ c => c.handle? == some h
  | _ => false

theorem seen_filter {p : Event → Bool} (hp : ∀ e : Event, p e.trim = p e)
    (ht : ∀ e, p e = true → e.trim = e ∧ e ≠ .unloaded) (events : List Event) :
    (seen events).filter p = events.filter p := by
  induction events with
  | nil => rfl
  | cons e es ih =>
    have hcons : seen (e :: es) = seen [e] ++ seen es := seen_append [e] es
    rw [hcons, List.filter_append, ih, List.filter_cons]
    by_cases he : p e = true
    · obtain ⟨htrim, hne⟩ := ht e he
      simp [seen, he, hne, htrim]
    · simp only [seen, List.filter_cons]
      split_ifs <;> simp_all

theorem Event.kept_of_isCallWith {h : Handle} (e : Event) (he : e.isCallWith h = true) :
    e.trim = e ∧ e ≠ .unloaded := by
  cases e <;> simp_all [Event.isCallWith, Event.trim]

theorem Event.kept_of_isRun {i : Nat} (e : Event) (he : e.isRun i = true) :
    e.trim = e ∧ e ≠ .unloaded := by
  cases e <;> simp_all [Event.isRun, Event.trim]

/-- What belongs to a share is no call with another handle. -/
theorem Event.Of.isCallWith {p : Share} {e : Event} (he : e.Of p) {h : Handle} (hh : p.handle ≠ h) :
    e.isCallWith h = false := by
  cases e with
  | called owner a c =>
    have hc : c.handle? = some p.handle := he.2 (owner, c) rfl
    show (c.handle? == some h) = false
    rw [hc]
    exact beq_false_of_ne fun he => hh (Option.some.inj he)
  | _ => rfl

/-- What belongs to a share is no run of a closure of anyone else. -/
theorem Event.Of.isRun {p : Share} {e : Event} (he : e.Of p) {i : Nat} (hi : ¬ p.owns i) :
    e.isRun i = false := isRun_of_owner? fun ho => hi (he.1 i ho)

/-- Two runs are the same for a solver: its answers and what happens in its steps, all calls with its
handle, all runs of its closures, and what is left of it in the client, behind its bridge and in the
native solver. -/
structure Indistinct (A : N.Apart τ ω ρ) (key : ι → Option Int) (names : ι → List String) (k : Int)
    (x : Solver) (is is' : List ι) (run run' : List Report × Session σ) : Prop where
  reports : reportsOf key k is run.1 = reportsOf key k is' run'.1
  calls : (eventsIn run.1).filter (Event.isCallWith x.handle) =
    (eventsIn run'.1).filter (Event.isCallWith x.handle)
  runs : (eventsIn run.1).filter (Event.isRun x.identity) =
    (eventsIn run'.1).filter (Event.isRun x.identity)
  solver : run.2.solvers.get? k = run'.2.solvers.get? k
  bridge : run.2.world.client.bridges.get? x.identity = run'.2.world.client.bridges.get? x.identity
  native : A.part x.handle run.2.world.native = A.part x.handle run'.2.world.native
  options : ∀ i ∈ is, key i = some k → ∀ n ∈ names i, run.2.option? n = run'.2.option? n

/-! ## Holdings of a portfolio -/

instance : Inhabited Holding := ⟨⟨⟨0, 1, fun _ => True, Nat.one_ne_zero, trivial⟩, 0, fun _ => True⟩⟩

/-- What belongs to the solver `x` of a portfolio. -/
structure Holding.IsOf (q : Holding) (names : ι → List String) (seq : Int → List ι) (s : Session σ)
    (k : Int) (x : Solver) : Prop where
  key : q.key = k
  identity : q.identity = x.identity
  handle : q.handle = x.handle
  owns : ∀ j, q.owns j ↔ (j, x.handle) ∈ openings s.trace
  names : ∀ n, q.names n ↔ ∃ i ∈ seq k, n ∈ names i

section Portfolio

variable {key : ι → Option Int} {names : ι → List String} {ks : List Int} {seq : Int → List ι}
  {s : Session σ} {is : List ι} {f : ι → Session σ → Answer × Session σ}

theorem Portfolio.exists_holding (hp : Portfolio key names ks seq s) (h : s.stage.Settled A) {k : Int}
    (hk : k ∈ ks) : ∃ q : Holding, ∃ x, s.solvers.get? k = some x ∧ q.IsOf names seq s k x := by
  obtain ⟨x, hx, hlive⟩ := hp.there k hk
  let q : Holding := {
    identity := x.identity
    handle := x.handle
    owns := fun j => (j, x.handle) ∈ openings s.trace
    live := hlive
    self := h.named x (.inl ⟨k, hx⟩)
    key := k
    names := fun n => ∃ i ∈ seq k, n ∈ names i }
  exact ⟨q, x, hx, rfl, rfl, rfl, fun _ => Iff.rfl, fun _ => Iff.rfl⟩

/-- Two solvers of a portfolio have nothing in common. -/
theorem Portfolio.apart (hp : Portfolio key names ks seq s) (h : s.stage.Settled A) {k k' : Int}
    (hk : k ∈ ks) (hk' : k' ∈ ks) (hne : k ≠ k') {q q' : Holding} {x x' : Solver}
    (hx : s.solvers.get? k = some x) (hx' : s.solvers.get? k' = some x')
    (hq : q.IsOf names seq s k x) (hq' : q'.IsOf names seq s k' x') : q.Apart q' where
  key := by
    rw [hq.key, hq'.key]
    exact hne
  handle := by
    rw [hq.handle, hq'.handle]
    exact fun he => hne (hp.handles k hk k' hk' x x' hx hx' he)
  owns j hj hj' := by
    rw [hq.owns] at hj
    rw [hq'.owns] at hj'
    -- an identity is given once, with one handle
    have he := List.inj_on_of_nodup_map h.once hj hj' rfl
    exact hne (hp.handles k hk k' hk' x x' hx hx' (congrArg Prod.snd he))
  names n hn hn' := by
    obtain ⟨i, hi, hn⟩ := (hq.names n).mp hn
    obtain ⟨i', hi', hn'⟩ := (hq'.names n).mp hn'
    exact hp.names k hk k' hk' hne i hi i' hi' n hn hn'

/-- A session agrees with itself about what belongs to a solver. -/
theorem near_of_settled (hs : s.stage.Sound) (h : s.stage.Settled A) {k : Int} {q : Holding} {x : Solver}
    (hx : s.solvers.get? k = some x) (hq : q.IsOf names seq s k x) : Session.Near A q s s where
  world := {
    client := ⟨fun _ _ => rfl, hs.bridges, hs.bridges⟩
    valid := h.valid
    valid' := h.valid
    part := rfl
    held := fun hook hh ht => (hq.owns _).mpr (hq.handle ▸ h.held q.handle hook hh ht) }
  solver := rfl
  same y hy := by
    rw [hq.key, hx] at hy
    cases hy
    exact ⟨hq.identity.symm, hq.handle.symm⟩
  options _ _ := rfl
  keys := hs.keys
  keys' := hs.keys

/-- What is seen to happen in a run. -/
theorem trail_events (is : List ι) (s : Session σ) :
    ((trail A f is s).map fun r => r.2.2.1) =
      (runAll (fun i => Session.report (f i)) is s).1.map fun r => seen r.trace := by
  induction is generalizing s with
  | nil => rfl
  | cons i is ih => exact congrArg (_ :: ·) (ih _)

theorem reportsOf_trail (k : Int) (is : List ι) (s : Session σ) :
    reportsOf key k is (runAll (fun i => Session.report (f i)) is s).1 =
      ((trail A f is s).filter fun r => key r.1 = some k).map fun r => (r.2.1, r.2.2.1) := by
  induction is generalizing s with
  | nil => rfl
  | cons i is ih =>
    have ih := ih (Session.report (f i) s).2
    unfold reportsOf at ih ⊢
    simp only [runAll, List.zip_cons_cons, List.filter_cons, trail]
    split_ifs
    · exact congrArg (_ :: ·) ih
    · exact ih

/-- What of a kind happens in a run is what happens in the steps with a solver, if it happens in no
others. -/
theorem eventsIn_filter {q : Int → Holding} (h : Holdings A f key q ks is s) {k : Int} {p : Event → Bool}
    (hp : ∀ e : Event, p e.trim = p e) (ht : ∀ e, p e = true → e.trim = e ∧ e ≠ .unloaded)
    (hother : ∀ k' ∈ ks, k' ≠ k → ∀ e, e.Of (q k').toShare → p e = false) :
    (eventsIn (runAll (fun i => Session.report (f i)) is s).1).filter p =
      ((trail A f is s).filter fun r => key r.1 = some k).flatMap fun r => r.2.2.1.filter p := by
  have hseen : (eventsIn (runAll (fun i => Session.report (f i)) is s).1).filter p =
      (trail A f is s).flatMap fun r => r.2.2.1.filter p := by
    have hmap := congrArg (List.flatMap (List.filter p)) (trail_events (A := A) (f := f) is s)
    rw [List.flatMap_map, List.flatMap_map] at hmap
    rw [hmap, eventsIn, List.filter_flatMap]
    exact List.flatMap_congr fun r _ => (seen_filter hp ht r.trace).symm
  rw [hseen]
  have hof := trail_of h
  generalize trail A f is s = l at hof ⊢
  induction l with
  | nil => rfl
  | cons r l ih =>
    have ih := ih fun r hr => hof r (List.mem_cons_of_mem _ hr)
    obtain ⟨k', hk', hr, he⟩ := hof r List.mem_cons_self
    rw [List.flatMap_cons, List.filter_cons]
    split_ifs with hkey
    · rw [List.flatMap_cons, ih]
    · have hne : k' ≠ k := by
        rintro rfl
        exact hkey (decide_eq_true hr)
      have hnil : r.2.2.1.filter p = [] :=
        List.filter_eq_nil_iff.mpr fun e hm => by simp [hother k' hk' hne e (he e hm)]
      rw [hnil, List.nil_append, ih]

/-- What belongs to the solvers of a portfolio, over a run of their steps in some order. -/
theorem Portfolio.holdings (hp : Portfolio key names ks seq s) (hs : s.stage.Sound)
    (h : s.stage.Settled A)
    (hf : ∀ (q : Holding) i, key i = some q.key → (∀ n ∈ names i, q.names n) → Session.Steady A q (f i)) :
    ∃ q : Int → Holding,
      (∀ k ∈ ks, ∃ x, s.solvers.get? k = some x ∧ (q k).IsOf names seq s k x) ∧
      ∀ js, Interleaves key ks seq js → Holdings A f key q ks js s := by
  choose! q hq using fun k (hk : k ∈ ks) => hp.exists_holding h hk
  refine ⟨q, hq, fun js hj => ⟨?_, ?_, ?_⟩⟩
  · intro k hk k' hk' hne
    obtain ⟨x, hx, hqx⟩ := hq k hk
    obtain ⟨x', hx', hqx'⟩ := hq k' hk'
    exact hp.apart h hk hk' hne hx hx' hqx hqx'
  · intro i hi
    obtain ⟨k, hk, hki⟩ := hj.steps i hi
    obtain ⟨x, -, hqx⟩ := hq k hk
    have hseq : i ∈ seq k := hj.order k hk ▸ List.mem_filter.mpr ⟨hi, decide_eq_true hki⟩
    exact ⟨k, hk, hki, hf (q k) i (hqx.key.symm ▸ hki) fun n hn => (hqx.names n).mpr ⟨i, hseq, hn⟩⟩
  · intro k hk
    obtain ⟨x, hx, hqx⟩ := hq k hk
    exact near_of_settled hs h hx hqx

/-- **The order of steps with different solvers is immaterial.** A run is the same for each solver as
that of one sequence after the other. The log has the same entries, and all that the native solver
knows is the same. -/
theorem portfolio_serial (hs : s.stage.Sound) (h : s.stage.Settled A)
    (hf : ∀ (q : Holding) i, key i = some q.key → (∀ n ∈ names i, q.names n) → Session.Steady A q (f i))
    (hp : Portfolio key names ks seq s) (hi : Interleaves key ks seq is) :
    let run := fun is => runAll (fun i => Session.report (f i)) is s
    (∀ k ∈ ks, ∀ x, s.solvers.get? k = some x →
      Indistinct A key names k x is (ks.flatMap seq) (run is) (run (ks.flatMap seq))) ∧
    (A.log (run is).2.world.native).Perm (A.log (run (ks.flatMap seq)).2.world.native) ∧
    A.rest (run is).2.world.native = A.rest (run (ks.flatMap seq)).2.world.native ∧
    ∀ handle, A.part handle (run is).2.world.native =
      A.part handle (run (ks.flatMap seq)).2.world.native := by
  intro run
  obtain ⟨q, hq, hholdings⟩ := hp.holdings hs h hf
  have hthis := hholdings is hi
  have hserial := hholdings _ hp.interleaves
  -- both runs are for a solver what its sequence alone would be
  have htrail (k : Int) (hk : k ∈ ks) :
      (trail A f is s).filter (fun r => key r.1 = some k) =
        (trail A f (ks.flatMap seq) s).filter fun r => key r.1 = some k := by
    rw [(trail_alone hthis hk (hthis.near k hk)).1, (trail_alone hserial hk (hserial.near k hk)).1,
      hi.order k hk, hp.interleaves.order k hk]
  have hnear (k : Int) (hk : k ∈ ks) : Session.Near A (q k) (run is).2 (run (ks.flatMap seq)).2 := by
    have hone := (trail_alone hthis hk (hthis.near k hk)).2
    have htwo := (trail_alone hserial hk (hserial.near k hk)).2
    rw [hi.order k hk] at hone
    rw [hp.interleaves.order k hk] at htwo
    exact hone.trans htwo.symm
  obtain ⟨hrest, hparts⟩ := rest_ran hthis
  obtain ⟨hrest', hparts'⟩ := rest_ran hserial
  refine ⟨fun k hk x hx => ?_, ?_, hrest.trans hrest'.symm, fun handle => ?_⟩
  · obtain ⟨y, hy, hqx⟩ := hq k hk
    cases hx.symm.trans hy
    have hn := hnear k hk
    have hevents {p : Event → Bool} (hp : ∀ e : Event, p e.trim = p e)
        (ht : ∀ e, p e = true → e.trim = e ∧ e ≠ .unloaded)
        (hother : ∀ k' ∈ ks, k' ≠ k → ∀ e, e.Of (q k').toShare → p e = false) :
        (eventsIn (run is).1).filter p = (eventsIn (run (ks.flatMap seq)).1).filter p := by
      rw [eventsIn_filter hthis hp ht hother, eventsIn_filter hserial hp ht hother, htrail k hk]
    refine ⟨?_, hevents ?_ Event.kept_of_isCallWith ?_, hevents ?_ Event.kept_of_isRun ?_, ?_, ?_, ?_, ?_⟩
    · rw [reportsOf_trail (A := A), reportsOf_trail (A := A), htrail k hk]
    · exact fun e => by cases e <;> rfl
    · intro k' hk' hne e he
      have hapart := hthis.apart k' hk' k hk hne
      exact he.isCallWith (hqx.handle ▸ hapart.handle)
    · exact fun e => by cases e <;> rfl
    · intro k' hk' hne e he
      have hapart := hthis.apart k hk k' hk' (Ne.symm hne)
      exact he.isRun (hapart.owns _ (hqx.identity ▸ (q k).self))
    · rw [← hqx.key]
      exact hn.solver
    · exact hn.world.client.bridges _ (hqx.identity ▸ (q k).self)
    · rw [← hqx.handle]
      exact hn.world.part
    · intro i hi' hki n hnames
      have hseq : i ∈ seq k := hi.order k hk ▸ List.mem_filter.mpr ⟨hi', decide_eq_true hki⟩
      exact hn.options n ((hqx.names n).mpr ⟨i, hseq, hnames⟩)
  · have hmem {js : List ι} (h : Holdings A f key q ks js s) :
        ∀ r ∈ trail A f js s, ∃ k ∈ ks, key r.1 = some k := by
      intro r hr
      obtain ⟨k, hk, hr, -⟩ := trail_of h r hr
      exact ⟨k, hk, hr⟩
    have hperm : (trail A f is s).Perm (trail A f (ks.flatMap seq) s) :=
      perm_of_filter (hmem hthis) (hmem hserial) htrail
    have hlog := log_ran hthis
    have hlog' := log_ran hserial
    unfold Session.played at hlog hlog'
    rw [hlog, hlog']
    exact (hperm.map _).flatten.append_left _
  · by_cases hh : ∃ k ∈ ks, handle = (q k).handle
    · obtain ⟨k, hk, rfl⟩ := hh
      exact (hnear k hk).world.part
    · have hno : ∀ k ∈ ks, handle ≠ (q k).handle := fun k hk he => hh ⟨k, hk, he⟩
      exact (hparts handle hno).trans (hparts' handle hno).symm

end Portfolio

/-! ## With the mock -/

/-- The key of the solver with which a step of a test does something. -/
def MockStep.solver? : MockStep → Option Int
  | client action _ => action.solver?
  | _ => none

def MockStep.names : MockStep → List String
  | client action _ => action.names
  | _ => []

namespace MockSession

open MockHost

/-- A step with a solver does the same in sessions that agree, on whichever thread it is taken. -/
theorem steady_step {q : Holding} {t : MockStep} (hk : t.solver? = some q.key)
    (hn : ∀ n ∈ t.names, q.names n) : Session.Steady apart q (step t) := by
  cases t with
  | client action b =>
    intro s s' h
    -- the thread is none of what the mock knows
    have hset : Session.Near apart q (setHost { host s with onThread := b } s)
        (setHost { host s' with onThread := b } s') :=
      ⟨⟨h.world.client, h.world.valid, h.world.valid', h.world.part, h.world.held⟩, h.solver, h.same,
        h.options, h.keys, h.keys'⟩
    obtain ⟨ha, ht⟩ := Session.step_abreast ⟨hk, hn⟩ _ _ hset
    refine ⟨ha, ⟨⟨?_, ht.near.solver, ht.near.same, ht.near.options, ht.near.keys, ht.near.keys'⟩, ?_,
      ht.solvers, ht.solvers', ht.options, ht.options'⟩⟩
    · exact ⟨ht.near.world.client, ht.near.world.valid, ht.near.world.valid', ht.near.world.part,
        ht.near.world.held⟩
    · exact ⟨⟨ht.world.near.client, ht.world.near.valid, ht.world.near.valid', ht.world.near.part,
        ht.world.near.held⟩, ht.world.client, ht.world.parts, ht.world.parts', ht.world.rest,
        ht.world.rest', ht.world.log⟩
  | _ => cases hk

end MockSession

namespace MockHost

/-- What the mock knows of an instance, made or yet to be made: its queue and its registrations. -/
def instance? (id : Nat) (host : MockHost) : Option Mock.Instance :=
  host.mock.map fun m => (m.instanceOf id).core

/-- Of an instance nothing is known but what is known of its handle, if it has one. -/
theorem instance_eq {host host' : MockHost} (hr : host.rest = host'.rest)
    (hp : ∀ handle, host.part handle = host'.part handle) (id : Nat) :
    host.instance? id = host'.instance? id := by
  unfold rest at hr
  unfold instance?
  cases hm : host.mock with
  | none =>
    rw [hm] at hr
    rw [Option.map_eq_none_iff.mp hr.symm]
  | some m =>
    cases hm' : host'.mock with
    | none =>
      rw [hm, hm'] at hr
      cases hr
    | some m' =>
      rw [hm, hm'] at hr
      obtain ⟨hhandles, -, -, hunmade⟩ := Rest.mk.inj (Option.some.inj hr)
      refine congrArg some ?_
      by_cases hid : id ∈ m.handles
      · obtain ⟨h, hh⟩ := List.mem_iff_getElem?.mp hid
        have hpart : m.part (h + 1) = m'.part (h + 1) := by
          rw [← part_of_mock hm, ← part_of_mock hm', hp]
        exact (Mock.twin_of_part (h := h + 1) hh hpart).2.core
      · have hget := congrFun hunmade id
        rw [if_neg hid, if_neg (hhandles ▸ hid)] at hget
        show ((m.instances.get? id).getD {}).core = ((m'.instances.get? id).getD {}).core
        rw [hget]

end MockHost

/-- The constant solver knows nothing of any handle. -/
def Constant.apart : Constant.native.Apart Unit Unit Nat where
  valid _ := True
  part _ _ := ()
  holds _ _ := False
  log _ := []
  rest := id
  keeps a c inits _ := by
    have hr : (respond c inits).Ends fun r => ∀ h, c.handle? = some h → r.2 = inits := by
      cases c <;> first | exact fun _ _ => rfl | exact nofun
    exact hr.mono fun r hr => ⟨trivial, fun h hc => ⟨hr h hc, fun _ _ => rfl⟩, fun _ _ => False.elim⟩
  agrees a c h inits inits' _ _ hc _ _ := by
    cases c <;> first | exact ⟨rfl, rfl, [], rfl, rfl⟩ | cases hc

/-- **The order in which solvers are used is immaterial to them.** Solvers that were made in a session
get the same answers and panics, make the same native calls, run the same closures and are left in
the same state, in whichever order their steps are taken, provided that the native solver keeps its
handles apart. The mock does; the queues and registrations of all its instances are the same too, and
so are its faults but for their order. -/
theorem portfolio_order_immaterial (N : Native σ) (A : N.Apart τ ω ρ) (opening : Session.Opening)
    (ks : List Int) :
    (∀ (native : σ) (before : List Step) (seq : Int → List Step) (is : List Step), A.valid native →
      (∀ handle hook, A.holds (A.part handle native) hook → hook.callback ≠ .trampoline) →
      let s := (Session.start opening native).2.after N (before.map .client)
      let run := fun is => runAll (fun action => Session.report (Session.step N action)) is s
      Portfolio Step.solver? Step.names ks seq s → Interleaves Step.solver? ks seq is →
      ∀ k ∈ ks, ∀ x, s.solvers.get? k = some x →
        Indistinct A Step.solver? Step.names k x is (ks.flatMap seq) (run is) (run (ks.flatMap seq))) ∧
    ∀ (before : List MockStep) (seq : Int → List MockStep) (is : List MockStep),
      let s := MockSession.after before (Session.start opening {}).2
      let run := fun is => runAll (fun t => Session.report (MockSession.step t)) is s
      Portfolio MockStep.solver? MockStep.names ks seq s → Interleaves MockStep.solver? ks seq is →
      (∀ k ∈ ks, ∀ x, s.solvers.get? k = some x →
        Indistinct MockHost.apart MockStep.solver? MockStep.names k x is (ks.flatMap seq) (run is)
          (run (ks.flatMap seq))) ∧
      (∀ id, (MockSession.host (run is).2).instance? id =
        (MockSession.host (run (ks.flatMap seq)).2).instance? id) ∧
      (MockHost.faults (MockSession.host (run is).2)).Perm
        (MockHost.faults (MockSession.host (run (ks.flatMap seq)).2)) := by
  constructor
  · intro native before seq is hv hheld s run hp hi
    have hstart : (Session.start opening native).2.stage.Sound := Session.sound_start opening native
    have hs : s.stage.Sound := Session.sound_after hstart _
    have hsettled : s.stage.Settled A :=
      Session.settled_after hstart (Session.settled_start opening hv hheld) before
    exact (portfolio_serial hs hsettled (fun q i hk hn => Session.step_abreast ⟨hk, hn⟩) hp hi).1
  · intro before seq is s run hp hi
    have hs : MockSession.Settled s := MockSession.settled_after opening before
    obtain ⟨hsame, hlog, hrest, hparts⟩ := portfolio_serial hs.sound hs.settled
      (fun q t hk hn => MockSession.steady_step hk hn) hp hi
    exact ⟨hsame, MockHost.instance_eq hrest hparts, hlog⟩

/-- A model is asked for, and then the solver is released. -/
def askAndRelease (k : Int) : List Step := [.val k (.integer 3), .release k]

/-- One call that is expected, and then one that is not. -/
def askTwice (k : Int) : List MockStep :=
  [.client (.val k (.integer 3)) true, .client (.val k (.integer 5)) false]

def expectAsked (id : Nat) : List MockStep :=
  [.expectInit id, .client (.create id) true, .expect id ⟨.val 3 3, .ok⟩]

theorem two_solvers_any_order :
    let s := (Session.start .known 0).2.after Constant.native ([.create 1, .create 2].map .client)
    let run := fun is => runAll (fun action => Session.report (Session.step Constant.native action)) is s
    let is := [.val 1 (.integer 3), .val 2 (.integer 3), .release 2, .release 1]
    let s' := MockSession.after (expectAsked 1 ++ expectAsked 2) (Session.start .known {}).2
    let run' := fun is => runAll (fun t => Session.report (MockSession.step t)) is s'
    let is' := [.client (.val 2 (.integer 3)) true, .client (.val 2 (.integer 5)) false,
      .client (.val 1 (.integer 3)) true, .client (.val 1 (.integer 5)) false]
    Indistinct Constant.apart Step.solver? Step.names 1 ⟨1, 1, Session.knownSymbols, [], none⟩ is
      (askAndRelease 1 ++ askAndRelease 2) (run is) (run (askAndRelease 1 ++ askAndRelease 2)) ∧
    (MockHost.faults (MockSession.host (run' is').2)).Perm
      (MockHost.faults (MockSession.host (run' (askTwice 1 ++ askTwice 2)).2)) := by
  intro s run is s' run' is'
  have h := portfolio_order_immaterial Constant.native Constant.apart .known [1, 2]
  have hone : Portfolio Step.solver? Step.names [1, 2] askAndRelease s := by
    refine ⟨by decide, fun k hk => ?_, fun k hk k' hk' x x' hx hx' he => ?_, fun k _ i hi => ?_,
      fun k _ k' _ _ i hi => ?_⟩
    · rcases List.mem_pair.mp hk with rfl | rfl <;> exact ⟨_, rfl, by decide⟩
    · rcases List.mem_pair.mp hk with rfl | rfl <;> rcases List.mem_pair.mp hk' with rfl | rfl <;>
        cases hx <;> cases hx' <;> first | rfl | cases he
    · rcases List.mem_pair.mp hi with rfl | rfl <;> rfl
    · rcases List.mem_pair.mp hi with rfl | rfl <;> exact fun _ _ => nofun
  have htwo : Portfolio MockStep.solver? MockStep.names [1, 2] askTwice s' := by
    refine ⟨by decide, fun k hk => ?_, fun k hk k' hk' x x' hx hx' he => ?_, fun k _ i hi => ?_,
      fun k _ k' _ _ i hi => ?_⟩
    · rcases List.mem_pair.mp hk with rfl | rfl <;> exact ⟨_, rfl, by decide⟩
    · rcases List.mem_pair.mp hk with rfl | rfl <;> rcases List.mem_pair.mp hk' with rfl | rfl <;>
        cases hx <;> cases hx' <;> first | rfl | cases he
    · rcases List.mem_pair.mp hi with rfl | rfl <;> rfl
    · rcases List.mem_pair.mp hi with rfl | rfl <;> exact fun _ _ => nofun
  refine ⟨h.1 0 _ askAndRelease is trivial nofun hone ⟨?_, ?_⟩ 1 (by decide) _ rfl,
    (h.2 _ askTwice is' htwo ⟨?_, ?_⟩).2.2⟩
  · intro i hi
    simp only [is, List.mem_cons, List.not_mem_nil, or_false] at hi
    rcases hi with rfl | rfl | rfl | rfl <;> first | exact ⟨1, by decide, rfl⟩ | exact ⟨2, by decide, rfl⟩
  · intro k hk
    rcases List.mem_pair.mp hk with rfl | rfl <;> rfl
  · intro i hi
    simp only [is', List.mem_cons, List.not_mem_nil, or_false] at hi
    rcases hi with rfl | rfl | rfl | rfl <;> first | exact ⟨1, by decide, rfl⟩ | exact ⟨2, by decide, rfl⟩
  · intro k hk
    rcases List.mem_pair.mp hk with rfl | rfl <;> rfl

end SatClient
