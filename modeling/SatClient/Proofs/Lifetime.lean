import Mathlib.Data.List.Nodup
import SatClient.Proofs.Roster

/-!
# The lifetime of a native solver

A native solver is made by one init and ends with one release, which is the last call that is made
through its solver.

* `callsOf`: the calls made through a solver
* `Stage.Serves`: the calls made so far are those of the solvers that have been made
* `Stage.Move.serves`, `Stage.Serves.beget`: each move keeps that, with the solver that it makes
* `Passage.made?`, `Session.serves_turn`: the solver that a turn makes
* **`solvers_released_once`**: the calls of all solvers, over all turns
-/

namespace SatClient

variable {σ : Type} {N : Native σ} {es : List EntryPoint} {i : Nat}

/-! ## Calls -/

/-- Among calls, those made through the solver `i`. -/
def callsThrough (i : Nat) (calls : List (Option Nat × Call)) : List Call :=
  calls.filterMap fun r => if r.1 = some i then some r.2 else none

/-- The calls made through the solver `i`. -/
def callsOf (i : Nat) (trace : List Event) : List Call := callsThrough i (callsMade trace)

theorem mem_callsThrough {calls : List (Option Nat × Call)} {c : Call} :
    c ∈ callsThrough i calls ↔ (some i, c) ∈ calls := by
  rw [callsThrough, List.mem_filterMap]
  constructor
  · rintro ⟨r, hr, hif⟩
    split_ifs at hif with ho
    rwa [← Option.some.inj hif, ← ho]
  · intro h
    exact ⟨_, h, if_pos rfl⟩

theorem callsOf_of_callsMade {trace trace' : List Event} {calls : List (Option Nat × Call)}
    (h : callsMade trace' = callsMade trace ++ calls) :
    callsOf i trace' = callsOf i trace ++ callsThrough i calls := by
  rw [callsOf, callsOf, h, callsThrough, List.filterMap_append]
  rfl

theorem World.call_callsMade (owner : Option Nat) (a : Address) (c : Call) (w : World σ) :
    callsMade (w.call N owner a c).2.client.trace = callsMade w.client.trace ++ [(owner, c)] := by
  obtain ⟨events, ht, hv⟩ := World.call_events N owner a c w
  have hn : callsMade events = [] := callsMade_of_isNote fun e he => (hv e he).isNote
  rw [ht, callsMade_append, callsMade_append, callsMade_append, hn]
  rfl

theorem callsMade_note {trace events : List Event} (h : callsMade events = []) :
    callsMade (trace ++ events) = callsMade trace := by
  rw [callsMade_append, h, List.append_nil]

theorem Event.owner?_of_called? {e : Event} {r : Option Nat × Call} (h : e.called? = some r) :
    e.owner? = r.1 := by
  cases e with
  | called owner a c =>
    cases h
    rfl
  | _ => cases h

/-- An operation calls through its own solver. -/
theorem Solver.Move.calls {f f' : Focus σ} (h : Solver.Move N es f f') :
    ∃ calls, callsMade f'.world.client.trace = callsMade f.world.client.trace ++ calls ∧
      ∀ r ∈ calls, r.1 = some f.solver.identity ∧ f.solver.Makes r.2 := by
  have hnote {events : List Event} (he : callsMade events = []) :
      ∃ calls, callsMade (f.world.client.trace ++ events) = callsMade f.world.client.trace ++ calls ∧
        ∀ r ∈ calls, r.1 = some f.solver.identity ∧ f.solver.Makes r.2 :=
    ⟨[], (callsMade_note he).trans (List.append_nil _).symm, fun _ hr => absurd hr List.not_mem_nil⟩
  have hback (slot : Slot) : callsMade (f.bridge.dropEvents f.solver.identity slot) = [] :=
    callsMade_of_isNote fun e he => (f.bridge.dropEvents_givesBack _ slot e he).isNote
  cases h with
  | tell n => exact hnote rfl
  | buffer b => exact ⟨[], (List.append_nil _).symm, fun _ hr => absurd hr List.not_mem_nil⟩
  | options he => exact ⟨[], (List.append_nil _).symm, fun _ hr => absurd hr List.not_mem_nil⟩
  | call he hc =>
    refine ⟨_, World.call_callsMade _ _ _ _, fun r hr => ?_⟩
    rw [List.mem_singleton.mp hr]
    exact ⟨rfl, hc⟩
  | resume he hp => exact hnote rfl
  | take he => exact hnote rfl
  | drop he => exact hnote rfl
  | settleTerminate he => exact hnote (hback .terminate)
  | settleExporter he => exact hnote (hback .exporter)

/-! ## The invariant -/

/-- A call with the handle of a solver that has been made, or a call without a handle that is made
for no solver. -/
def ServedBy (made : List Solver) (r : Option Nat × Call) : Prop :=
  (r.1 = none ∧ r.2.handle? = none) ∨
    ∃ x ∈ made, r.1 = some x.identity ∧ r.2.handle? = some x.handle

/-- The calls through a solver: operations, and at last its release when it is there no more. -/
def CallsInOrder (x : Solver) (live : Prop) [Decidable live] (calls : List Call) : Prop :=
  ∃ ops, calls = ops ++ (if live then [] else [.release x.handle]) ∧ ∀ c ∈ ops, c.entry ≠ .release

namespace Stage

def HasSolver (st : Stage σ) (x : Solver) : Prop :=
  (∃ key, st.solvers.get? key = some x) ∨ st.newborn = some x

section HasSolver

variable {st : Stage σ} {w : World σ} {key : Int} {x y : Solver}

theorem hasSolver_set (h : HasSolver { st with world := w, solvers := st.solvers.set key x } y) :
    y = x ∨ st.HasSolver y := by
  rcases h with ⟨key', hk⟩ | hn
  · have hk : (st.solvers.set key x).get? key' = some y := hk
    rw [Keyed.get?_set] at hk
    split_ifs at hk
    · exact .inl (Option.some.inj hk).symm
    · exact .inr (.inl ⟨key', hk⟩)
  · exact .inr (.inr hn)

theorem hasSolver_erase (hs : st.solvers.keys.Nodup)
    (h : HasSolver { st with world := w, solvers := st.solvers.erase key } y) : st.HasSolver y := by
  rcases h with ⟨key', hk⟩ | hn
  · have hk : (st.solvers.erase key).get? key' = some y := hk
    rw [Keyed.get?_erase hs] at hk
    split_ifs at hk
    exact .inl ⟨key', hk⟩
  · exact .inr hn

theorem hasSolver_keep (hn : st.newborn = some x)
    (h : HasSolver { st with solvers := st.solvers.set key x, newborn := none } y) : st.HasSolver y := by
  let bare : Stage σ := { st with newborn := none }
  have h : HasSolver { bare with world := st.world, solvers := bare.solvers.set key x } y := h
  rcases hasSolver_set h with rfl | ⟨key', hk⟩ | hy
  · exact .inr hn
  · exact .inl ⟨key', hk⟩
  · cases hy

end HasSolver

/-- The calls made so far are those of the solvers in `made`, which have been made. -/
structure Serves (made : List Solver) (st : Stage σ) : Prop where
  names : (made.map Solver.identity).Nodup
  past : ∀ x ∈ made, x.identity < st.world.nextIdentity
  known : ∀ y, st.HasSolver y → ∃ x ∈ made, x.identity = y.identity ∧ x.handle = y.handle
  calls : ∀ r ∈ callsMade st.world.client.trace, ServedBy made r
  order : ∀ x ∈ made, CallsInOrder x (x.identity ∈ st.world.client.bridges.keys)
    (callsOf x.identity st.world.client.trace)

namespace Serves

variable {made : List Solver} {st st' : Stage σ}

theorem eq_of_identity (h : Serves made st) {x y : Solver} (hx : x ∈ made) (hy : y ∈ made)
    (hi : x.identity = y.identity) : x = y :=
  List.inj_on_of_nodup_map h.names hx hy hi

/-- More calls are made, none of which is a release, through solvers that stay. -/
theorem grow (h : Serves made st) (hx : st'.world.nextIdentity = st.world.nextIdentity)
    (hk : ∀ y, st'.HasSolver y → ∃ z, st.HasSolver z ∧ z.identity = y.identity ∧ z.handle = y.handle)
    (hb : st'.world.client.bridges.keys = st.world.client.bridges.keys)
    {calls : List (Option Nat × Call)}
    (ht : callsMade st'.world.client.trace = callsMade st.world.client.trace ++ calls)
    (hc : ∀ r ∈ calls, ServedBy made r ∧ r.2.entry ≠ .release ∧
      ∀ i, r.1 = some i → i ∈ st.world.client.bridges.keys) : Serves made st' := by
  constructor
  · exact h.names
  · rw [hx]
    exact h.past
  · intro y hy
    obtain ⟨z, hz, hi, hh⟩ := hk y hy
    obtain ⟨x, hxm, hi', hh'⟩ := h.known z hz
    exact ⟨x, hxm, hi'.trans hi, hh'.trans hh⟩
  · rw [ht]
    intro r hr
    rcases List.mem_append.mp hr with hr | hr
    · exact h.calls r hr
    · exact (hc r hr).1
  · intro x hxm
    obtain ⟨ops, hops, hlive⟩ := h.order x hxm
    let mine := callsThrough x.identity calls
    have hmine : callsOf x.identity st'.world.client.trace =
        callsOf x.identity st.world.client.trace ++ mine := callsOf_of_callsMade ht
    rw [hmine, hops, hb]
    by_cases hi : x.identity ∈ st.world.client.bridges.keys
    · simp only [CallsInOrder, if_pos hi, List.append_nil]
      refine ⟨ops ++ mine, rfl, fun c hm => ?_⟩
      rcases List.mem_append.mp hm with hm | hm
      · exact hlive c hm
      · exact (hc _ (mem_callsThrough.mp hm)).2.1
    · have hnil : mine = [] := List.eq_nil_iff_forall_not_mem.mpr fun c hm =>
        hi ((hc _ (mem_callsThrough.mp hm)).2.2 _ rfl)
      rw [hnil, List.append_nil]
      exact ⟨ops, rfl, hlive⟩

/-- No calls are made. -/
theorem quiet (h : Serves made st) {world : World σ} {events : List Event}
    (hx : world.nextIdentity = st.world.nextIdentity)
    (hb : world.client.bridges.keys = st.world.client.bridges.keys)
    (ht : world.client.trace = st.world.client.trace ++ events) (hn : callsMade events = []) :
    Serves made { st with world } := by
  have hcalls : callsMade world.client.trace = callsMade st.world.client.trace ++ [] := by
    rw [ht, callsMade_note hn, List.append_nil]
  exact h.grow hx (fun y hy => ⟨y, hy, rfl, rfl⟩) hb hcalls fun _ hr => absurd hr List.not_mem_nil

theorem operate (h : Serves made st) (hs : st.Sound) {key : Int} {solver : Solver} {f : Focus σ}
    (hk : st.solvers.get? key = some solver) (hm : Solver.Move N es ⟨solver, st.world⟩ f) :
    Serves made { st with world := f.world, solvers := st.solvers.set key f.solver } := by
  have hb : solver.identity ∈ st.world.client.bridges.keys := hs.bridge_of_get? hk
  obtain ⟨x, hx, hi, hh⟩ := h.known solver (.inl ⟨key, hk⟩)
  obtain ⟨calls, ht, hc⟩ := hm.calls
  refine h.grow hm.nextIdentity ?_ (hm.keeps hs.fresh hb).keys ht ?_
  · intro y hy
    rcases hasSolver_set hy with rfl | hy
    · exact ⟨solver, .inl ⟨key, hk⟩, hm.solver_eq.1.symm, hm.solver_eq.2.1.symm⟩
    · exact ⟨y, hy, rfl, rfl⟩
  · intro r hr
    obtain ⟨ho, hmakes⟩ := hc r hr
    refine ⟨.inr ⟨x, hx, ?_, ?_⟩, hmakes.live, ?_⟩
    · rw [ho, hi]
    · rw [hmakes.handle, hh]
    · intro i hr
      rw [ho] at hr
      exact Option.some.inj hr ▸ hb

/-- The release of a solver is the last call that is made through it. -/
theorem finish (h : Serves made st) (hs : st.Sound) {key : Int} {solver : Solver}
    {events : List Event} (hk : st.solvers.get? key = some solver)
    (ht : ∀ e ∈ events, ∃ n, e = .notice n) :
    Serves made { st with
      world := Solver.close
        (((⟨solver, st.world⟩ : Focus σ).call N (.release solver.handle)).2.note events)
      solvers := st.solvers.erase key } := by
  let f : Focus σ := ((⟨solver, st.world⟩ : Focus σ).call N (.release solver.handle)).2
  have hcall : Client.Keeps st.world.nextIdentity st.world.client f.world.client :=
    hs.call_keeps hk (.release solver.handle)
  have hkeys : (Solver.close (f.note events)).client.bridges.keys =
      st.world.client.bridges.keys.erase solver.identity :=
    (Keyed.keys_erase _ _).trans (congrArg (·.erase solver.identity) hcall.keys)
  have hmade : callsMade (Solver.close (f.note events)).client.trace =
      callsMade st.world.client.trace ++ [(some solver.identity, .release solver.handle)] := by
    obtain ⟨notes, hnotes, hn⟩ := Solver.close_noted_trace f ht
    rw [hnotes, callsMade_note (callsMade_of_isNote hn)]
    exact World.call_callsMade _ _ _ _
  obtain ⟨x, hx, hi, hh⟩ := h.known solver (.inl ⟨key, hk⟩)
  constructor
  · exact h.names
  · exact h.past
  · exact fun y hy => h.known y (hasSolver_erase hs.keys hy)
  · intro r hr
    rw [hmade] at hr
    rcases List.mem_append.mp hr with hr | hr
    · exact h.calls r hr
    · rw [List.mem_singleton.mp hr]
      exact .inr ⟨x, hx, congrArg some hi.symm, congrArg some hh.symm⟩
  · intro y hy
    obtain ⟨ops, hops, hlive⟩ := h.order y hy
    refine ⟨ops, ?_, hlive⟩
    rw [callsOf_of_callsMade hmade, hops, hkeys]
    by_cases hy' : y.identity = solver.identity
    · have hxy : y = x := h.eq_of_identity hy hx (hy'.trans hi.symm)
      have hb : y.identity ∈ st.world.client.bridges.keys := hy' ▸ hs.bridge_of_get? hk
      have hb' : y.identity ∉ st.world.client.bridges.keys.erase solver.identity := by
        rw [hy']
        exact hs.bridges.not_mem_erase
      rw [if_pos hb, if_neg hb', hxy, hh, hi]
      simp [callsThrough]
    · have hne : ¬ some solver.identity = some y.identity := fun h => hy' (Option.some.inj h).symm
      simp only [List.mem_erase_of_ne hy', callsThrough, List.filterMap_cons, if_neg hne,
        List.filterMap_nil, List.append_nil]

/-- With a solver that is made there is one more; nothing has been called through it. -/
theorem beget (h : Serves made st) (hs : st.Sound) (symbols : Symbols) (handle : Handle) :
    Serves (made ++ [st.world.newborn symbols handle]) { st with
      world := st.world.opened handle, newborn := some (st.world.newborn symbols handle) } := by
  let x := st.world.newborn symbols handle
  have hb : st.world.nextIdentity ∉ st.world.client.bridges.keys :=
    fun h => Nat.lt_irrefl _ (hs.fresh _ h)
  have hkeys : (st.world.opened handle).client.bridges.keys =
      st.world.client.bridges.keys ++ [x.identity] := Keyed.keys_set_of_notMem hb _
  have hmade : callsMade (st.world.opened handle).client.trace =
      callsMade st.world.client.trace := callsMade_note rfl
  constructor
  · rw [List.map_append, List.nodup_append]
    refine ⟨h.names, List.nodup_singleton _, ?_⟩
    rintro i hi j hj rfl
    obtain ⟨y, hy, rfl⟩ := List.mem_map.mp hi
    have hlt := h.past y hy
    have heq : y.identity = st.world.nextIdentity := List.mem_singleton.mp hj
    omega
  · intro y hy
    show y.identity < st.world.nextIdentity + 1
    rcases List.mem_append.mp hy with hy | hy
    · have := h.past y hy
      omega
    · rw [List.mem_singleton.mp hy]
      exact Nat.lt_succ_self _
  · rintro y (hk | hy)
    · obtain ⟨z, hz, hi, hh⟩ := h.known y (.inl hk)
      exact ⟨z, List.mem_append_left _ hz, hi, hh⟩
    · exact ⟨y, List.mem_append_right _ (List.mem_singleton.mpr (Option.some.inj hy).symm), rfl, rfl⟩
  · intro r hr
    rw [hmade] at hr
    refine (h.calls r hr).imp id ?_
    rintro ⟨y, hy, ho⟩
    exact ⟨y, List.mem_append_left _ hy, ho⟩
  · intro y hy
    rw [hkeys]
    rcases List.mem_append.mp hy with hy | hy
    · obtain ⟨ops, hops, hlive⟩ := h.order y hy
      have hne : y.identity ≠ x.identity := Nat.ne_of_lt (h.past y hy)
      refine ⟨ops, ?_, hlive⟩
      rw [callsOf, hmade, ← callsOf, hops]
      simp only [List.mem_append, List.mem_singleton, hne, or_false]
    · rw [List.mem_singleton.mp hy]
      refine ⟨[], ?_, fun _ hc => absurd hc List.not_mem_nil⟩
      have hmem : x.identity ∈ st.world.client.bridges.keys ++ [x.identity] :=
        List.mem_append_right _ (List.mem_singleton.mpr rfl)
      rw [if_pos hmem, callsOf, hmade]
      refine List.filterMap_eq_nil_iff.mpr fun r hr => if_neg fun ho => ?_
      obtain ⟨e, he, hcall⟩ := List.mem_filterMap.mp hr
      have howner : e.owner? = some st.world.nextIdentity := (Event.owner?_of_called? hcall).trans ho
      exact Nat.lt_irrefl _ (hs.owners e he _ howner)

theorem keep (h : Serves made st) {key : Int} {solver : Solver} (hn : st.newborn = some solver) :
    Serves made { st with solvers := st.solvers.set key solver, newborn := none } := by
  refine h.grow rfl (fun y hy => ?_) rfl (List.append_nil _).symm fun _ hr => absurd hr List.not_mem_nil
  exact ⟨y, hasSolver_keep hn hy, rfl, rfl⟩

end Serves

/-- **A move that makes no solver keeps the calls in order.** -/
theorem Move.serves {made : List Solver} {st st' : Stage σ} (h : Move N es st st') (hs : st.Sound)
    (hx : st'.world.nextIdentity = st.world.nextIdentity) (hm : Serves made st) : Serves made st' := by
  cases h with
  | tell n => exact hm.quiet rfl rfl rfl rfl
  | unload => exact hm.quiet rfl rfl rfl rfl
  | @ask a c he hc =>
    have hk : Client.Keeps st.world.nextIdentity st.world.client (st.world.call N none a c).2.client :=
      World.call_keeps _ _ _ hs.fresh nofun
    refine hm.grow rfl (fun y hy => ⟨y, hy, rfl, rfl⟩) hk.keys (World.call_callsMade _ _ _ _) ?_
    intro r hr
    rw [List.mem_singleton.mp hr]
    refine ⟨.inl ⟨rfl, hc⟩, ?_, nofun⟩
    intro hrel
    cases c with
    | release => cases hc
    | _ => cases hrel
  | operate hk h => exact hm.operate hs hk h
  | beget he hn => exact absurd hx (Nat.succ_ne_self _)
  | keep hn hk => exact hm.keep hn
  | finish events he hk ht => exact hm.finish hs hk ht

theorem Move.nextIdentity {st st' : Stage σ} (h : Move N es st st') (hi : .init ∉ es) :
    st'.world.nextIdentity = st.world.nextIdentity := by
  cases h with
  | operate hk h => exact h.nextIdentity
  | beget he hn => exact absurd he hi
  | _ => rfl

theorem Moves.serves {made : List Solver} {st st' : Stage σ} (h : Moves N es st st') (hs : st.Sound)
    (hi : .init ∉ es) (hm : Serves made st) : Serves made st' :=
  Moves.induct (P := fun st => Serves made st)
    (fun _ _ hmv hst hp => hmv.serves hst (hmv.nextIdentity hi) hp) h hs hm

end Stage

/-! ## Turns -/

def Event.initReply? : Event → Option Reply
  | returned _ .init reply => some reply
  | _ => none

/-- The answers to the inits. -/
def initReplies (trace : List Event) : List Reply := trace.filterMap Event.initReply?

theorem initReplies_append (l l' : List Event) :
    initReplies (l ++ l') = initReplies l ++ initReplies l' := List.filterMap_append

theorem initReplies_of_allowed {events : List Event} (hi : .init ∉ es)
    (h : ∀ e ∈ events, e.Allowed es) : initReplies events = [] := by
  refine List.filterMap_eq_nil_iff.mpr fun e he => ?_
  have ha := h e he
  cases e with
  | returned owner c reply =>
    cases c with
    | init => exact absurd ha hi
    | _ => rfl
  | _ => rfl

/-- The solver that a turn makes. -/
def Passage.made? (p : Passage σ) : Option Solver :=
  match p.turn with
  | .client (.create key) => if p.answer.isDone then p.after.solvers.get? key else none
  | _ => none

/-- How solvers are made. -/
structure Passage.Begins (p : Passage σ) : Prop where
  /-- Whoever creates a solver and succeeds has made one. -/
  created : ∀ key, p.turn = .client (.create key) → p.made?.isSome = p.answer.isDone
  /-- One init is made for it, which succeeds; the handle is the one that is left. -/
  handle : ∀ x, p.made? = some x →
    ∃ reply, initReplies p.events = [reply] ∧ reply.code.isOk ∧ reply.handle = x.handle
  /-- A creation that fails calls nothing but the init. -/
  failed : ∀ key, p.turn = .client (.create key) → p.made? = none →
    ∀ r ∈ callsMade p.events, r = (none, .init)

namespace Session

variable {s : Session σ} {made : List Solver}

/-- The calls made in a session are those of the solvers in `made`. -/
structure Served (made : List Solver) (s : Session σ) : Prop where
  calls : ∀ r ∈ callsMade s.trace, ServedBy made r
  handle : ∀ x ∈ made, ∀ c ∈ callsOf x.identity s.trace, c.handle? = some x.handle
  order : ∀ x ∈ made, CallsInOrder x (x.identity ∈ s.identities) (callsOf x.identity s.trace)

theorem served_of_serves (hs : s.stage.Sound) (h : s.stage.Serves made) : s.Served made := by
  refine ⟨h.calls, fun x hx c hc => ?_, fun x hx => ?_⟩
  · rcases h.calls _ (mem_callsThrough.mp hc) with ⟨ho, -⟩ | ⟨y, hy, ho, hh⟩
    · cases ho
    · rw [h.eq_of_identity hx hy (Option.some.inj ho)]
      exact hh
  · obtain ⟨ops, hops, hlive⟩ := h.order x hx
    refine ⟨ops, ?_, hlive⟩
    simp only [mem_identities_iff hs]
    exact hops

/-- A solver could not be made: the init has failed, or there was no interface to call it. -/
theorem serves_unmade {t : Turn σ} (h : (s.turn N t).2.stage.Serves made)
    (hd : (s.turn N t).1.isDone = false) {events : List Event}
    (ht : (s.turn N t).2.trace = s.trace ++ events) (hc : ∀ r ∈ callsMade events, r = (none, .init)) :
    (s.turn N t).2.stage.Serves (made ++ (s.passage N t).made?.toList) ∧ (s.passage N t).Begins := by
  have hev : (s.passage N t).events = events := passage_events ht
  have hmade : (s.passage N t).made? = none := by
    unfold Passage.made?
    split
    · exact if_neg (by rw [show (s.passage N t).answer.isDone = false from hd]; exact Bool.false_ne_true)
    · rfl
  rw [hmade, Option.toList_none, List.append_nil]
  refine ⟨h, fun key _ => ?_, fun x hx => ?_, fun key _ _ => ?_⟩
  · rw [hmade]
    exact hd.symm
  · rw [hmade] at hx
    cases hx
  · rw [hev]
    exact hc

/-- A solver has been made, and is kept under its key. -/
theorem serves_made {t : Turn σ} {key : Int} {x : Solver} {l : Library} {s₁ : Session σ}
    (ht : t = .client (.create key)) (hd : (s.turn N t).1.isDone)
    (hr : (s.turn N t).2 = s₁.keepSolver N l key x) (hs : (s₁.stageWith (some x)).Sound)
    (h : (s₁.stageWith (some x)).Serves (made ++ [x])) {events : List Event} {reply : Reply}
    (htr : s₁.trace = s.trace ++ events) (hi : initReplies events = [reply])
    (hok : reply.code.isOk) (hh : reply.handle = x.handle) :
    (s.turn N t).2.stage.Serves (made ++ (s.passage N t).made?.toList) ∧ (s.passage N t).Begins := by
  have hkeep : Stage.Moves N [.release] (s₁.stageWith (some x)) (s.turn N t).2.stage := by
    rw [hr]
    exact stage_keepSolver (List.mem_singleton.mpr rfl) hs.keys l key x
  have hmade : (s.passage N t).made? = some x := by
    subst ht
    refine (if_pos hd).trans ?_
    show (s.turn N _).2.solvers.get? key = some x
    rw [hr]
    exact Keyed.get?_set_self _ _ _
  obtain ⟨rest, hrest, -, hallowed⟩ := hkeep.grows
  have hev : (s.passage N t).events = events ++ rest := by
    refine passage_events (hrest.trans ?_)
    rw [← List.append_assoc]
    exact congrArg (· ++ rest) htr
  rw [hmade]
  refine ⟨hkeep.serves hs (by decide) h, fun key _ => ?_, fun y hy => ?_, fun key _ hn => ?_⟩
  · rw [hmade]
    exact hd.symm
  · rw [hmade] at hy
    refine ⟨reply, ?_, hok, hh.trans (congrArg Solver.handle (Option.some.inj hy))⟩
    rw [hev, initReplies_append, hi, initReplies_of_allowed (by decide) hallowed, List.append_nil]
  · rw [hmade] at hn
    cases hn

/-- The creation of a solver. -/
theorem serves_create (hs : s.stage.Sound) (h : s.stage.Serves made) (key : Int) :
    (s.turn N (.client (.create key))).2.stage.Serves
        (made ++ (s.passage N (.client (.create key))).made?.toList) ∧
      (s.passage N (.client (.create key))).Begins := by
  have hturn : s.turn N (.client (.create key)) = s.create N key := rfl
  rw [create, onInterface] at hturn
  cases hl : s.interface? with
  | none =>
    rw [hl] at hturn
    have htr : (s.turn N (.client (.create key))).2.trace = s.trace ++ [] := by
      rw [hturn, List.append_nil]
    refine serves_unmade ?_ ?_ htr fun r hr => absurd hr List.not_mem_nil
    · rw [hturn]
      exact h
    · rw [hturn]
      rfl
  | some l =>
    let called := s.world.call N none (l.symbols .init) .init
    let told (n : Notice) : Stage σ := { s.stage with world := called.2.note [.notice n] }
    have hask : Stage.Move N [.init] s.stage { s.stage with world := called.2 } :=
      .ask (List.mem_singleton.mpr rfl) rfl
    have htell (n : Notice) : Stage.Move N [.init] { s.stage with world := called.2 } (told n) := .tell n
    have hserves (n : Notice) : (told n).Serves made :=
      (htell n).serves (hask.sound hs) rfl (hask.serves hs rfl h)
    have hsound (n : Notice) : (told n).Sound := (htell n).sound (hask.sound hs)
    obtain ⟨visits, htrace, hvisits⟩ := World.call_events N none (l.symbols .init) .init s.world
    let events := [.called none (l.symbols .init) .init] ++ visits ++ [.returned none .init called.1]
    have htrace : called.2.client.trace = s.trace ++ events := htrace
    have hvis : initReplies visits = [] := List.filterMap_eq_nil_iff.mpr fun e he => by
      have := hvisits e he
      cases e <;> first | rfl | cases this
    rw [hl] at hturn
    dsimp only at hturn
    rw [create_apply] at hturn
    dsimp only at hturn
    by_cases hok : called.1.code.isOk
    · rw [if_pos hok] at hturn
      let x := (called.2.note [.notice .created]).newborn l.symbols called.1.handle
      let s₁ : Session σ :=
        { s with world := (called.2.note [.notice .created]).opened called.1.handle }
      have hr : (s.turn N (.client (.create key))).2 = s₁.keepSolver N l key x := by rw [hturn]
      have htr : s₁.trace = s.trace ++ (events ++ [.notice .created, .opened x.identity x.handle]) := by
        rw [← List.append_assoc, ← htrace]
        exact List.append_assoc _ _ _
      have hreply : initReplies (events ++ [.notice .created, .opened x.identity x.handle]) =
          [called.1] := by
        simp only [initReplies_append, hvis, events]
        rfl
      refine serves_made rfl ?_ hr ((hsound .created).beget rfl _ _)
        ((hserves .created).beget (hsound .created) _ _) htr hreply hok rfl
      rw [hturn]
      rfl
    · rw [if_neg hok] at hturn
      have hcalls : callsMade visits = [] := callsMade_of_isNote fun e he => (hvisits e he).isNote
      have htr : (s.turn N (.client (.create key))).2.trace =
          s.trace ++ (events ++ [.notice (.returned .init called.1.code)]) := by
        rw [hturn, ← List.append_assoc, ← htrace]
        rfl
      refine serves_unmade ?_ ?_ htr fun r hr => ?_
      · rw [hturn]
        exact hserves _
      · rw [hturn]
        rfl
      · simp only [callsMade_append, hcalls, events] at hr
        exact List.mem_singleton.mp hr

theorem Turn.init_notMem {t : Turn σ} (h : ∀ key, t ≠ .client (.create key)) : .init ∉ t.entries := by
  cases t with
  | native d => exact List.not_mem_nil
  | client action =>
    cases action with
    | create key => exact absurd rfl (h key)
    | _ => simp [Turn.entries, Step.entries]

/-- **A turn makes the calls of the solvers there are, and of the one that it makes.** -/
theorem serves_turn (hs : s.stage.Sound) (h : s.stage.Serves made) (t : Turn σ) :
    (s.turn N t).2.stage.Serves (made ++ (s.passage N t).made?.toList) ∧ (s.passage N t).Begins := by
  by_cases hcreate : ∃ key, t = .client (.create key)
  · obtain ⟨key, rfl⟩ := hcreate
    exact serves_create hs h key
  · have hno : ∀ key, t ≠ .client (.create key) := fun key ht => hcreate ⟨key, ht⟩
    have hmade : (s.passage N t).made? = none := by
      unfold Passage.made?
      split
      · rename_i key ht
        exact absurd ht (hno key)
      · rfl
    rw [hmade, Option.toList_none, List.append_nil]
    refine ⟨?_, fun key ht => absurd ht (hno key), fun x hx => ?_, fun key ht => absurd ht (hno key)⟩
    · cases t with
      | native d =>
        have hv := d.run_visits s.world.client
        obtain ⟨events, ht, he⟩ := hv.events
        exact h.quiet rfl (hv.keeps hs.fresh).keys ht (callsMade_of_isNote fun e hm => (he e hm).isNote)
      | client action => exact (step_moves hs.keys action).serves hs (Turn.init_notMem hno) h
    · rw [hmade] at hx
      cases hx

/-- By induction on the turns. -/
theorem serves_after (hs : s.stage.Sound) (h : s.stage.Serves made) (turns : List (Turn σ)) :
    (s.after N turns).stage.Serves (made ++ (s.course N turns).filterMap Passage.made?) := by
  induction turns generalizing s made with
  | nil => exact (List.append_nil made).symm ▸ h
  | cons t ts ih =>
    have h' := ih (sound_turn hs t) (serves_turn (N := N) hs h t).1
    rw [List.append_assoc] at h'
    have hc : (s.course N (t :: ts)).filterMap Passage.made? =
        (s.passage N t).made?.toList ++ ((s.turn N t).2.course N ts).filterMap Passage.made? := by
      rw [course, List.filterMap_cons]
      cases (s.passage N t).made? <;> rfl
    rw [hc]
    exact h'

theorem serves_start (opening : Opening) (native : σ) : (start opening native).2.stage.Serves [] := by
  obtain ⟨trace, hs, ho⟩ := start_stage opening native
  rw [hs]
  have hn : callsMade trace = [] := callsMade_of_isNote fun e he => (ho e he).2
  refine ⟨List.nodup_nil, nofun, ?_, ?_, nofun⟩
  · rintro y (⟨key, hk⟩ | hy)
    · cases hk
    · cases hy
  · intro r hr
    rw [hn] at hr
    cases hr

end Session

/-- **Every solver that is made is released once, and never used again.** The calls through it carry
the handle which its init left; its release is the last of them, and is made when the solver is there
no more. No other calls have a handle, and nothing is called for a solver that could not be made. -/
theorem solvers_released_once (N : Native σ) (opening : Session.Opening) (native : σ)
    (turns : List (Turn σ)) :
    let start := (Session.start opening native).2
    let course := start.course N turns
    let s := start.after N turns
    let made := course.filterMap Passage.made?
    (made.map Solver.identity).Nodup ∧ (∀ p ∈ course, p.Begins) ∧
      s.Served made ∧ (s.finish N).Served made ∧ (s.finish N).identities = [] := by
  intro start course s made
  have hsound : start.stage.Sound := Session.sound_start opening native
  have hs : s.stage.Sound := Session.sound_after hsound turns
  have h : s.stage.Serves made := Session.serves_after hsound (Session.serves_start opening native) turns
  have hend : (s.finish N).stage.Serves made := (Session.stage_end s).serves hs (by decide) h
  refine ⟨h.names, ?_, Session.served_of_serves hs h,
    Session.served_of_serves (Session.sound_end hs) hend, Session.finish_identities s⟩
  intro p hp
  obtain ⟨earlier, t, later, -, rfl⟩ := Session.mem_course hp
  exact (Session.serves_turn (Session.sound_after hsound earlier)
    (Session.serves_after hsound (Session.serves_start opening native) earlier) t).2

end SatClient
