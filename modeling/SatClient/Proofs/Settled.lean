import SatClient.Proofs.Lifetime
import SatClient.Proofs.MockApart

/-!
# Solvers that are settled

When solvers have been made, each is known under an identity of its own, and what is registered with a
handle is the bridge of the solver which was made with it. So it stays, whatever the solvers do.

* `Stage.Settled`: the invariant; **`Stage.Move.settled`**: each move of the library keeps it
* `Session.settled_after`: so do the steps of a client
* **`MockSession.settled_after`**: and the steps of a test
-/

namespace SatClient

variable {σ τ ω ρ : Type} {N : Native σ} {A : N.Apart τ ω ρ} {es : List EntryPoint}

/-- What the library notes outside of calls, but for the beginning of a solver. -/
def Event.IsRemark : Event → Prop
  | notice _ | resumed .. | taken .. | dropped .. | discarded .. | closed _ | unloaded => True
  | _ => False

theorem Event.GivesBack.isRemark {i : Nat} {e : Event} (h : e.GivesBack i) : e.IsRemark := by
  cases h <;> trivial

theorem plain_of_isRemark {events : List Event} (h : ∀ e ∈ events, e.IsRemark) : Plain events := by
  refine plain_of_forall fun e he => ?_
  have hn := h e he
  cases e <;> first | exact ⟨rfl, rfl⟩ | cases hn

/-- A move calls the native solver, or leaves it alone and notes something. -/
theorem Solver.Move.calls_or_remarks {f f' : Focus σ} (h : Solver.Move N es f f') :
    (∃ c, f.solver.Makes c ∧ f' = (f.call N c).2) ∨
      f'.world.native = f.world.native ∧
        ∃ events, f'.world.client.trace = f.world.client.trace ++ events ∧ ∀ e ∈ events, e.IsRemark := by
  have hone (e : Event) (he : e.IsRemark) : ∀ x ∈ [e], x.IsRemark := List.forall_mem_singleton.mpr he
  cases h with
  | call he hc => exact .inl ⟨_, hc, rfl⟩
  | tell n => exact .inr ⟨rfl, _, rfl, hone _ trivial⟩
  | buffer b => exact .inr ⟨rfl, [], (List.append_nil _).symm, List.forall_mem_nil _⟩
  | options he => exact .inr ⟨rfl, [], (List.append_nil _).symm, List.forall_mem_nil _⟩
  | resume he hp => exact .inr ⟨rfl, _, rfl, hone _ trivial⟩
  | take he => exact .inr ⟨rfl, _, rfl, hone _ trivial⟩
  | drop he => exact .inr ⟨rfl, _, rfl, hone _ trivial⟩
  | settleTerminate he =>
    exact .inr ⟨rfl, _, rfl, fun e he => (f.bridge.dropEvents_givesBack _ .terminate e he).isRemark⟩
  | settleExporter he =>
    exact .inr ⟨rfl, _, rfl, fun e he => (f.bridge.dropEvents_givesBack _ .exporter e he).isRemark⟩

/-- At the end of a solver, of which others are told, something is noted. -/
theorem Solver.close_remarks (f : Focus σ) {events : List Event} (ht : ∀ e ∈ events, ∃ n, e = .notice n) :
    ∃ remarks, (close (f.note events)).client.trace = f.world.client.trace ++ remarks ∧
      ∀ e ∈ remarks, e.IsRemark := by
  obtain ⟨rest, hrest, hback⟩ := close_trace (f.note events)
  refine ⟨events ++ rest, hrest.trans (List.append_assoc _ _ _),
    List.forall_mem_append.mpr ⟨fun e he => ?_, fun e he => (hback e he).isRemark⟩⟩
  obtain ⟨n, rfl⟩ := ht e he
  trivial

namespace Stage

/-- Each solver has an identity of its own, and with a handle no bridge is registered but that of a
solver which was made with the handle. -/
structure Settled (A : N.Apart τ ω ρ) (st : Stage σ) : Prop where
  valid : A.valid st.world.native
  once : ((openings st.world.client.trace).map Prod.fst).Nodup
  named : ∀ x, st.HasSolver x → x.name ∈ openings st.world.client.trace
  held : ∀ handle hook, A.holds (A.part handle st.world.native) hook → hook.callback = .trampoline →
    (hook.data, handle) ∈ openings st.world.client.trace

namespace Settled

variable {st st' : Stage σ}

/-- No solver is made. -/
theorem still (h : st.Settled A)
    (ho : openings st'.world.client.trace = openings st.world.client.trace)
    (hk : ∀ y, st'.HasSolver y → ∃ z, st.HasSolver z ∧ z.name = y.name)
    (hv : A.valid st'.world.native)
    (hh : ∀ handle hook, A.holds (A.part handle st'.world.native) hook → hook.callback = .trampoline →
      (hook.data, handle) ∈ openings st.world.client.trace) : st'.Settled A where
  valid := hv
  once := ho ▸ h.once
  named y hy := by
    obtain ⟨z, hz, hn⟩ := hk y hy
    rw [ho, ← hn]
    exact h.named z hz
  held := ho ▸ hh

/-- The native solver is left alone. -/
theorem quiet (h : st.Settled A) (hn : st'.world.native = st.world.native)
    (hq : Quiet st.world.client.trace st'.world.client.trace)
    (hk : ∀ y, st'.HasSolver y → ∃ z, st.HasSolver z ∧ z.name = y.name) : st'.Settled A :=
  h.still hq.openings hk (hn ▸ h.valid) (hn ▸ h.held)

/-- A call registers no bridge but that of a solver with the handle. -/
theorem call (h : st.Settled A) {owner : Option Nat} {a : Address} {c : Call}
    (hc : ∀ j handle, c.registration? = some (some j, some .trampoline) → c.handle? = some handle →
      (j, handle) ∈ openings st.world.client.trace) :
    Settled A { st with world := (st.world.call N owner a c).2 } := by
  have hkeeps := (A.keeps a c _ h.valid).run (st.world.client.note [.called owner a c])
  refine h.still (World.call_openings N owner a c st.world) (fun y hy => ⟨y, hy, rfl⟩) hkeeps.1 ?_
  intro handle hook hh ht
  rcases hkeeps.2.2 handle hook hh with hold | ⟨hhandle, hreg⟩
  · exact h.held handle hook hold ht
  · exact hc _ _ (ht ▸ hreg) hhandle

theorem operate (h : st.Settled A) {key : Int} {solver : Solver} {f : Focus σ}
    (hs : st.solvers.get? key = some solver) (hm : Solver.Move N es ⟨solver, st.world⟩ f) :
    Settled A { st with world := f.world, solvers := st.solvers.set key f.solver } := by
  have hname : f.solver.name = solver.name := by
    obtain ⟨hi, hh, -⟩ := hm.solver_eq
    exact Prod.ext hi hh
  have hk (y : Solver)
      (hy : HasSolver { st with world := f.world, solvers := st.solvers.set key f.solver } y) :
      ∃ z, st.HasSolver z ∧ z.name = y.name := by
    rcases hasSolver_set hy with rfl | hy
    · exact ⟨solver, .inl ⟨key, hs⟩, hname.symm⟩
    · exact ⟨y, hy, rfl⟩
  rcases hm.calls_or_remarks with ⟨c, hc, rfl⟩ | ⟨hn, events, ht, he⟩
  · refine Settled.quiet (h.call ?_) rfl (.refl _) hk
    intro j handle hreg hhandle
    have hmine : handle = solver.handle := Option.some.inj (hhandle.symm.trans hc.handle)
    rcases hc.registration _ hreg with hr | hr
    · cases hr
      rw [hmine]
      exact h.named solver (.inl ⟨key, hs⟩)
    · cases hr
  · refine h.quiet hn ?_ hk
    show Quiet _ f.world.client.trace
    rw [ht]
    exact .note _ (plain_of_isRemark he)

/-- A solver that is made has an identity that none had before. -/
theorem beget (h : st.Settled A) (hs : st.Sound) (symbols : Symbols) (handle : Handle) :
    Settled A { st with
      world := st.world.opened handle, newborn := some (st.world.newborn symbols handle) } := by
  have hopen : openings (st.world.opened handle).client.trace =
      openings st.world.client.trace ++ [(st.world.nextIdentity, handle)] := openings_append _ _
  refine ⟨h.valid, ?_, ?_, ?_⟩
  · rw [hopen, List.map_append, List.nodup_append]
    refine ⟨h.once, List.nodup_singleton _, ?_⟩
    rintro i hi j hj rfl
    obtain ⟨p, hp, rfl⟩ := List.mem_map.mp hi
    obtain ⟨e, he, ho⟩ := List.mem_filterMap.mp hp
    have hlt : p.1 < st.world.nextIdentity := by
      cases e <;> cases ho
      exact hs.owners _ he _ rfl
    have heq : p.1 = st.world.nextIdentity := List.mem_singleton.mp hj
    omega
  · intro y hy
    rw [hopen]
    rcases hy with hk | hy
    · exact List.mem_append_left _ (h.named y (.inl hk))
    · refine List.mem_append_right _ (List.mem_singleton.mpr ?_)
      rw [← Option.some.inj hy]
      rfl
  · intro handle' hook hh ht
    rw [hopen]
    exact List.mem_append_left _ (h.held handle' hook hh ht)

theorem finish (h : st.Settled A) (hs : st.Sound) {key : Int} {solver : Solver} {events : List Event}
    (ht : ∀ e ∈ events, ∃ n, e = .notice n) :
    Settled A { st with
      world := Solver.close
        (((⟨solver, st.world⟩ : Focus σ).call N (.release solver.handle)).2.note events)
      solvers := st.solvers.erase key } := by
  let called : Stage σ := { st with
    world := ((⟨solver, st.world⟩ : Focus σ).call N (.release solver.handle)).2.world }
  have hcalled : called.Settled A := h.call nofun
  refine hcalled.quiet rfl ?_ fun y hy => ⟨y, hasSolver_erase hs.keys hy, rfl⟩
  obtain ⟨remarks, hremarks, hr⟩ := Solver.close_remarks
    ((⟨solver, st.world⟩ : Focus σ).call N (.release solver.handle)).2 ht
  show Quiet _ (Solver.close _).client.trace
  rw [hremarks]
  exact .note _ (plain_of_isRemark hr)

end Settled

/-- **Each move of the library leaves the solvers settled.** -/
theorem Move.settled {st st' : Stage σ} (h : Move N es st st') (hs : st.Sound) (hm : st.Settled A) :
    st'.Settled A := by
  have hsame (y : Solver) (hy : st.HasSolver y) : ∃ z, st.HasSolver z ∧ z.name = y.name := ⟨y, hy, rfl⟩
  cases h with
  | tell n => exact hm.quiet rfl (.note _ ⟨rfl, rfl⟩) hsame
  | unload => exact hm.quiet rfl (.note _ ⟨rfl, rfl⟩) hsame
  | @ask a c he hc =>
    refine hm.call fun j handle _ hhandle => ?_
    rw [hc] at hhandle
    cases hhandle
  | operate hk h => exact hm.operate hk h
  | beget he hn => exact hm.beget hs _ _
  | keep hn hk => exact hm.quiet rfl (.refl _) fun y hy => ⟨y, hasSolver_keep hn hy, rfl⟩
  | finish events he hk ht => exact hm.finish hs ht

end Stage

/-! ## Sessions -/

namespace Session

variable {s : Session σ}

theorem settled_step (hs : s.stage.Sound) (h : s.stage.Settled A) (action : Step) :
    (s.step N action).2.stage.Settled A :=
  Stage.Moves.induct (fun _ _ hm hs h => hm.settled hs h) (step_moves hs.keys action) hs h

/-- By induction on the steps. -/
theorem settled_after (hs : s.stage.Sound) (h : s.stage.Settled A) (steps : List Step) :
    (s.after N (steps.map .client)).stage.Settled A := by
  induction steps generalizing s with
  | nil => exact h
  | cons action rest ih => exact ih (sound_turn hs (.client action)) (settled_step hs h action)

/-- At the beginning nothing is registered with a native solver, or nothing of this library. -/
theorem settled_start (opening : Opening) {native : σ} (hv : A.valid native)
    (hn : ∀ handle hook, A.holds (A.part handle native) hook → hook.callback ≠ .trampoline) :
    (start opening native).2.stage.Settled A := by
  obtain ⟨trace, hs, ho⟩ := start_stage opening native
  have hopen : openings trace = [] := by
    refine List.filterMap_eq_nil_iff.mpr fun e he => ?_
    have hnone := (ho e he).1
    cases e <;> first | rfl | cases hnone
  rw [hs]
  refine ⟨hv, ?_, ?_, fun handle hook hh ht => absurd ht (hn handle hook hh)⟩
  · show (List.map Prod.fst (openings trace)).Nodup
    rw [hopen]
    exact List.nodup_nil
  · rintro x (⟨key, hk⟩ | hx)
    · cases hk
    · cases hx

end Session

/-! ## Sessions with the mock -/

namespace MockSession

open MockHost

variable {s : Session MockHost}

/-- All solvers have a bridge of their own, and are settled. -/
structure Settled (s : Session MockHost) : Prop where
  sound : s.stage.Sound
  settled : s.stage.Settled apart

/-- Another host is put in the place of the one there is. -/
theorem Settled.setHost (h : Settled s) (host' : MockHost) (ho : ∀ m, host'.mock = some m → m.Orderly)
    (hh : ∀ handle hook, holds (host'.part handle) hook → hook.callback = .trampoline →
      holds ((host s).part handle) hook) : Settled (setHost host' s) where
  sound := h.sound.of_client rfl (.refl _ _)
  settled := h.settled.still rfl (fun y hy => ⟨y, hy, rfl⟩) ho
    fun handle hook hp ht => h.settled.held handle hook (hh handle hook hp ht) ht

theorem Settled.onThread {f : Session MockHost → Answer × Session MockHost} (h : Settled s)
    (hf : ∀ s, Settled s → Settled (f s).2) (b : Bool) : Settled (onThread b f s).2 := by
  have hset {s : Session MockHost} (h : Settled s) (b : Bool) :
      Settled (MockSession.setHost { host s with onThread := b } s) :=
    h.setHost { host s with onThread := b } h.settled.valid fun _ _ hp _ => hp
  exact hset (hf _ (hset h b)) true

theorem Settled.converse {β : Type} (h : Settled s) (d : Dialogue β) : Settled (s.converse d).2 := by
  have hv := d.run_visits s.world.client
  refine ⟨h.sound.of_client rfl (hv.keeps h.sound.fresh), ?_⟩
  exact h.settled.quiet rfl hv.quiet fun y hy => ⟨y, hy, rfl⟩

theorem Settled.setMock {m m' : Mock} (h : Settled s) (hm : (host s).mock = some m) (ha : m.Alike m')
    (ho : m'.Orderly) : Settled (setMock (some m') s) := by
  refine h.setHost { host s with mock := some m' } ?_ ?_
  · rintro n ⟨⟩
    exact ho
  · intro handle hook hp _
    obtain ⟨id, slot, hi, hh⟩ := (holds_iff rfl).mp hp
    exact (holds_iff hm).mpr ⟨id, slot, (ha.instanceAt handle).symm.trans hi,
      (ha.registration slot id).symm.trans hh⟩

theorem Settled.told (h : Settled s) {t : MockStep} {f : Mock → Except Mock.Trouble Mock}
    (ht : t.told? = some f) : Settled (tell f s).2 := by
  unfold MockSession.tell onMock
  cases hm : (host s).mock with
  | none => exact h
  | some m =>
    dsimp only
    cases hr : f m with
    | error e => exact h
    | ok m' =>
      have htold := Mock.told_of_step ht hr
      exact h.setMock hm htold.alike ((h.settled.valid m hm).told htold)

theorem Settled.ask (h : Settled s) (f : Mock → Answer) : Settled (ask f s).2 := by
  unfold MockSession.ask onMock
  cases (host s).mock <;> exact h

theorem Settled.simulate (h : Settled s) (slot : Slot) (id : Nat) (dialogue : Hook → Dialogue Answer) :
    Settled (simulate slot id dialogue s).2 := by
  unfold MockSession.simulate onMock
  cases (host s).mock with
  | none => exact h
  | some m =>
    dsimp only
    cases m.hook slot id with
    | error t => exact h
    | ok hook => exact h.converse _

/-- There is no mock, or one that holds nothing. -/
theorem Settled.renew {m? : Option Mock} (h : Settled s) (hm : ∀ m, m? = some m → m = {}) :
    Settled (MockSession.setMock m? s) := by
  refine h.setHost { host s with mock := m? } (fun m hm' => hm m hm' ▸ Mock.orderly_empty) ?_
  rintro handle hook ⟨q, slot, hq, -⟩ -
  obtain ⟨m, hm', hpart⟩ := Option.bind_eq_some_iff.mp hq
  rw [hm m hm'] at hpart
  obtain ⟨id, hi, -⟩ := Option.map_eq_some_iff.mp hpart
  cases handle <;> cases hi

/-- A call without the library registers no bridge. -/
theorem Settled.raw (h : Settled s) (key : Option Int) (c : RawCall) : Settled (raw key c s).2 := by
  let handle := (key.map s.handleOf).getD 0
  let d := (host s).respond (c.call handle)
  have hkeeps := (MockHost.keeps (c.call handle) (host s) h.settled.valid).run s.world.client
  refine (h.converse d).setHost _ hkeeps.1 fun h' hook hp ht => ?_
  rcases hkeeps.2.2 h' hook hp with hold | ⟨-, hreg⟩
  · exact hold
  · obtain ⟨function, data⟩ := hook
    cases ht
    cases c with
    | setTerminate data callback => cases data <;> cases callback <;> cases hreg
    | setExport data callback maxLength => cases data <;> cases callback <;> cases hreg
    | _ => cases hreg

/-- A step of a test leaves the solvers settled. -/
theorem Settled.step (h : Settled s) (t : MockStep) : Settled (step t s).2 := by
  cases t with
  | client action b =>
    refine h.onThread (fun s hs => ?_) b
    exact ⟨Session.sound_turn hs.sound (.client action), Session.settled_step hs.sound hs.settled action⟩
  | expectInit id => exact h.told (t := .expectInit id) rfl
  | expectInitFailure code => exact h.told (t := .expectInitFailure code) rfl
  | expect id call => exact h.told (t := .expect id call) rfl
  | setSignature text code => exact h.told (t := .setSignature text code) rfl
  | setOptions id offers => exact h.told (t := .setOptions id offers) rfl
  | simulateTerminate id => exact h.simulate _ _ _
  | simulateExport id clause => exact h.simulate _ _ _
  | outstanding => exact h.ask _
  | faults => exact h.ask _
  | takeFaults =>
    unfold MockSession.step onMock
    cases hm : (host s).mock with
    | none => exact h
    | some m =>
      have ho := h.settled.valid m hm
      exact h.setMock hm ⟨rfl, fun _ _ => rfl⟩ ⟨ho.keys, ho.handles, ho.made, ho.registered, ho.pending⟩
  | verify => exact h.ask _
  | dropMock =>
    unfold MockSession.step dropMock
    split_ifs
    · cases (host s).mock with
      | none => exact h
      | some m => exact h.renew nofun
    · exact h
  | newMock =>
    unfold MockSession.step newMock
    split_ifs
    · exact h
    · exact h.renew fun m hm => (Option.some.inj hm).symm
  | raw key c b => exact h.onThread (fun s hs => hs.raw key c) b

theorem settled_start (opening : Session.Opening) : Settled (Session.start opening ({} : MockHost)).2 := by
  refine ⟨Session.sound_start opening _, Session.settled_start opening ?_ ?_⟩
  · rintro m ⟨⟩
    exact Mock.orderly_empty
  · rintro handle hook ⟨q, slot, hq, -⟩
    obtain ⟨id, hi, -⟩ := Option.map_eq_some_iff.mp hq
    cases handle <;> cases hi

/-- **Whatever a test does, the solvers are settled.** By induction on the steps. -/
theorem settled_after (opening : Session.Opening) (steps : List MockStep) :
    Settled (after steps (Session.start opening {}).2) := by
  suffices h : ∀ s, Settled s → Settled (after steps s) from h _ (settled_start opening)
  induction steps with
  | nil => exact fun _ h => h
  | cons t ts ih => exact fun s h => ih _ (h.step t)

end MockSession
end SatClient
