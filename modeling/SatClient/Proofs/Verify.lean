import SatClient.Proofs.Account

/-!
# The verdict on a test

A test with the mock passes just if all went as expected. The steps of a client make calls with the
handles that the mock gave, and the mock keeps account of each.

* `Book`, `Book.Kept`: the account of a step that has begun
* `Stage.Booked`: the invariant of the library; `Stage.Move.booked`: each move keeps it
* `MockSession.Audited`: the invariant of a test; `MockSession.Audited.step`: each step keeps it
* **`MockSession.verify_iff_fulfilled`**: the verdict in the end
-/

namespace SatClient

open Mock

/-! ## The account of a step -/

/-- What is needed to read the calls of a step: the instances and the names of options, the trace before
the step, and the deeds until then. -/
structure Book where
  instanceAt : Handle → Option Nat
  nameAt : Option Descriptor → String
  before : List Event
  deeds : List Deed

namespace Book

/-- The deeds that events add to a book. -/
def Adds (B : Book) (events : List Event) (ds : List Deed) : Prop :=
  ∀ rest, deedsIn B.instanceAt B.nameAt [] (events ++ rest) = ds ++ deedsIn B.instanceAt B.nameAt [] rest

variable {B : Book} {events events' : List Event} {ds ds' : List Deed}

theorem Adds.append (h : B.Adds events ds) (h' : B.Adds events' ds') :
    B.Adds (events ++ events') (ds ++ ds') := by
  intro rest
  rw [List.append_assoc, h, h', List.append_assoc]

theorem adds_nil (B : Book) : B.Adds [] [] := fun _ => rfl

theorem Adds.eq (h : B.Adds events ds) : deedsIn B.instanceAt B.nameAt [] events = ds := by
  have hrest := h []
  rw [List.append_nil, deedsIn, List.append_nil] at hrest
  exact hrest

/-- No deeds are added outside of calls. -/
theorem adds_of_inner (h : ∀ e ∈ events, e.IsInner) (ha : answersIn events = []) : B.Adds events [] := by
  intro rest
  rw [deedsIn_inner _ _ h, ha]
  rfl

theorem adds_remarks (h : ∀ e ∈ events, e.IsRemark) : B.Adds events [] := by
  refine adds_of_inner (fun e he => ?_) (List.filterMap_eq_nil_iff.mpr fun e he => ?_)
  · have hr := h e he
    cases e <;> trivial
  · have hr := h e he
    cases e <;> first | rfl | cases hr

/-- The mock keeps account of the deeds in a book, and of those that were added. -/
structure Kept (B : Book) (ds : List Deed) (m : Mock) (w : World MockHost) : Prop where
  mock : w.native.mock = some m
  instances : m.instanceAt = B.instanceAt
  names : m.nameAt = B.nameAt
  events : ∃ events, w.client.trace = B.before ++ events ∧ B.Adds events ds
  account : Account (B.deeds ++ ds) m

namespace Kept

variable {m m' : Mock} {w w' : World MockHost}

/-- The mock is left alone. -/
theorem remark (h : B.Kept ds m w) (hn : w'.native = w.native)
    (ht : w'.client.trace = w.client.trace ++ events) (he : B.Adds events []) : B.Kept ds m w' := by
  obtain ⟨before, hb, ha⟩ := h.events
  refine ⟨hn ▸ h.mock, h.instances, h.names, ⟨before ++ events, ?_, ?_⟩, h.account⟩
  · rw [ht, hb, List.append_assoc]
  · exact List.append_nil ds ▸ ha.append he

/-- A call is made. -/
theorem advance (h : B.Kept ds m w) {c : Made} (hm : w'.native.mock = some m')
    (hi : m'.instanceAt = m.instanceAt) (hn : m'.nameAt = m.nameAt)
    (ht : w'.client.trace = w.client.trace ++ events) (he : B.Adds events [.made c])
    (ha : Account (B.deeds ++ ds ++ [.made c]) m') : B.Kept (ds ++ [.made c]) m' w' := by
  obtain ⟨before, hb, hadds⟩ := h.events
  refine ⟨hm, hi.trans h.instances, hn.trans h.names, ⟨before ++ events, ?_, hadds.append he⟩, ?_⟩
  · rw [ht, hb, List.append_assoc]
  · rw [← List.append_assoc]
    exact ha

/-- A call with a handle that the mock knows. -/
theorem call (h : B.Kept ds m w) {c : Call} {handle : Handle} {id : Nat} (hc : c.handle? = some handle)
    (hi : B.instanceAt handle = some id) (owner : Option Nat) (a : Address) :
    ∃ ds' m', B.Kept ds' m' (w.call MockHost.native owner a c).2 := by
  have hmock := h.mock
  have hi' : m.instanceAt handle = some id := h.instances ▸ hi
  have hend : (MockHost.native.respond a c w.native).EndsWith fun answers r => ∃ m', r.2.mock = some m' ∧
      Account (B.deeds ++ ds ++ [.made ⟨some id, c, m.nameAt c.option?, answers⟩]) m' ∧
      Touches id m m' := by
    show (MockHost.respond c w.native).EndsWith _
    unfold MockHost.respond
    rw [hmock]
    refine ((h.account.respond_handle hc hi' w.native.onThread).mono fun answers r hr => ?_).map
    exact ⟨r.2, rfl, hr⟩
  obtain ⟨answers, events, ht, hdeeds, m', hm', ha, htouch⟩ :=
    World.call_deed B.instanceAt B.nameAt hend owner
  refine ⟨_, m', h.advance hm' (instanceAt_of_handles htouch.handles) (nameAt_of_extends htouch.tables)
    ht (fun rest => (hdeeds rest).trans ?_) ha⟩
  rw [hc, h.names, Option.getD_some, hi]
  rfl

/-- A call for the signature, on the thread of the mock. -/
theorem callSignature (h : B.Kept ds m w) (hb : w.native.onThread = true) (owner : Option Nat) (a : Address) :
    ∃ ds' m', B.Kept ds' m' (w.call MockHost.native owner a .signature).2 := by
  obtain ⟨ha, hhandle, hhandles, htables⟩ := h.account.respondSignature (m.nameAt none)
  have hend : (MockHost.native.respond a .signature w.native).EndsWith fun answers r =>
      r.2.mock = some m.respondSignature.2 ∧ r.1.handle = 0 ∧ answers = [] := by
    show (MockHost.respond .signature w.native).EndsWith _
    unfold MockHost.respond
    rw [h.mock, hb]
    exact ⟨rfl, hhandle, rfl⟩
  obtain ⟨answers, events, ht, hdeeds, hm', hreply, rfl⟩ :=
    World.call_deed B.instanceAt B.nameAt hend owner
  refine ⟨_, _, h.advance hm' (instanceAt_of_handles hhandles) (nameAt_of_extends ⟨0, ?_⟩) ht
    (fun rest => (hdeeds rest).trans ?_) ha⟩
  · rw [htables]
    exact (List.append_nil _).symm
  · rw [h.names, ← h.instances]
    dsimp only [Call.handle?, Option.getD_none] at hreply ⊢
    rw [hreply]
    rfl

end Kept
end Book

/-- A call is answered on the thread on which it is made. -/
theorem World.call_onThread (owner : Option Nat) (a : Address) (c : Call) (w : World MockHost) :
    (w.call MockHost.native owner a c).2.native.onThread = w.native.onThread := by
  have hend : (MockHost.respond c w.native).Ends fun r => r.2.onThread = w.native.onThread := by
    unfold MockHost.respond
    cases w.native.mock with
    | none => rfl
    | some m => exact ((m.respond_ends w.native.onThread c).mono fun _ _ => rfl).map
  exact hend.run (w.client.note [.called owner a c])

/-! ## Moves of the library -/

namespace Stage

/-- The mock keeps account, and knows the handle of each solver. -/
structure Booked (B : Book) (onThread : Bool) (st : Stage MockHost) : Prop where
  kept : ∃ ds m, B.Kept ds m st.world
  thread : st.world.native.onThread = onThread
  known : ∀ x, st.HasSolver x → ∃ id, B.instanceAt x.handle = some id

variable {B : Book} {b : Bool} {st st' : Stage MockHost} {es : List EntryPoint}

namespace Booked

/-- Something is noted outside of calls. -/
theorem remark (h : st.Booked B b) {events : List Event} (hn : st'.world.native = st.world.native)
    (ht : st'.world.client.trace = st.world.client.trace ++ events) (he : B.Adds events [])
    (hk : ∀ y, st'.HasSolver y → ∃ z, st.HasSolver z ∧ z.handle = y.handle) : st'.Booked B b := by
  obtain ⟨ds, m, hkept⟩ := h.kept
  refine ⟨⟨ds, m, hkept.remark hn ht he⟩, hn ▸ h.thread, fun y hy => ?_⟩
  obtain ⟨z, hz, hhandle⟩ := hk y hy
  exact hhandle ▸ h.known z hz

/-- A call is made with the handle of a solver. -/
theorem call (h : st.Booked B b) {x : Solver} (hx : st.HasSolver x) {c : Call}
    (hc : c.handle? = some x.handle) (owner : Option Nat) (a : Address) :
    Booked B b { st with world := (st.world.call MockHost.native owner a c).2 } := by
  obtain ⟨ds, m, hkept⟩ := h.kept
  obtain ⟨id, hi⟩ := h.known x hx
  exact ⟨hkept.call hc hi owner a, (World.call_onThread owner a c st.world).trans h.thread, h.known⟩

end Booked

/-- **Each move of the library but an init is accounted for.** -/
theorem Move.booked (h : Move MockHost.native es st st') (hinit : .init ∉ es)
    (hsignature : .signature ∈ es → b = true) (hs : st.Sound) (hb : st.Booked B b) : st'.Booked B b := by
  have hsame (y : Solver) (hy : st.HasSolver y) : ∃ z, st.HasSolver z ∧ z.handle = y.handle := ⟨y, hy, rfl⟩
  have hone (e : Event) (he : e.IsRemark) : B.Adds [e] [] :=
    Book.adds_remarks (List.forall_mem_singleton.mpr he)
  cases h with
  | tell n => exact hb.remark rfl rfl (hone _ trivial) hsame
  | unload => exact hb.remark rfl rfl (hone _ trivial) hsame
  | @ask a c he hc =>
    obtain ⟨ds, m, hkept⟩ := hb.kept
    cases c with
    | init => exact absurd he hinit
    | signature =>
      have hthread := hb.thread.trans (hsignature he)
      exact ⟨hkept.callSignature hthread none a, (World.call_onThread none a _ st.world).trans hb.thread,
        hb.known⟩
    | _ => cases hc
  | @operate key solver f hk hm =>
    have hsolver : st.HasSolver solver := .inl ⟨key, hk⟩
    have hhas (y : Solver)
        (hy : HasSolver { st with world := f.world, solvers := st.solvers.set key f.solver } y) :
        ∃ z, st.HasSolver z ∧ z.handle = y.handle := by
      rcases hasSolver_set hy with rfl | hy
      · exact ⟨solver, hsolver, hm.solver_eq.2.1.symm⟩
      · exact hsame y hy
    rcases hm.calls_or_remarks with ⟨c, hc, rfl⟩ | ⟨hn, events, ht, he⟩
    · exact (hb.call hsolver hc.handle _ _).remark rfl (List.append_nil _).symm B.adds_nil hhas
    · exact hb.remark hn ht (Book.adds_remarks he) hhas
  | beget he hn => exact absurd he hinit
  | keep hn hk =>
    exact hb.remark rfl (List.append_nil _).symm B.adds_nil fun y hy => hsame y (hasSolver_keep hn hy)
  | @finish key solver events he hk ht =>
    obtain ⟨remarks, hremarks, hr⟩ := Solver.close_remarks
      ((⟨solver, st.world⟩ : Focus MockHost).call MockHost.native (.release solver.handle)).2 ht
    exact (hb.call (.inl ⟨key, hk⟩) rfl _ _).remark rfl hremarks (Book.adds_remarks hr)
      fun y hy => hsame y (hasSolver_erase hs.keys hy)

end Stage

/-! ## An init -/

namespace Mock

variable {m : Mock} {ds : List Deed}

/-- The handles that were known are known after an init. -/
theorem respondInit_instanceAt {handle : Handle} {id : Nat} (h : m.instanceAt handle = some id) :
    m.respondInit.2.instanceAt handle = some id := by
  unfold respondInit
  cases m.pending with
  | none => exact h
  | some p =>
    obtain ⟨id?, code⟩ := p
    cases id? with
    | none => exact h
    | some j =>
      cases handle with
      | zero => cases h
      | succ k =>
        obtain ⟨hlt, -⟩ := List.getElem?_eq_some_iff.mp h
        exact (List.getElem?_append_left hlt).trans h

/-- An init that succeeds gives a handle that is known. -/
theorem Account.respondInit_made (h : Account ds m) (hok : m.respondInit.1.code.isOk = true) :
    ∃ id, m.respondInit.2.instanceAt m.respondInit.1.handle = some id := by
  have hfailing := h.failing
  unfold Mock.respondInit at hok ⊢
  cases hp : m.pending with
  | none =>
    rw [hp] at hok
    cases hok
  | some p =>
    rw [hp] at hok
    obtain ⟨id?, code⟩ := p
    cases id? with
    | none => exact absurd (hok.symm.trans (hfailing _ hp rfl)) nofun
    | some id => exact ⟨id, making_instanceAt m id⟩

end Mock

/-- An init on the thread of the mock begins a book. -/
theorem Book.kept_init {m : Mock} {w : World MockHost} {ds : List Deed} (ha : Account ds m)
    (hm : w.native.mock = some m) (hb : w.native.onThread = true) (owner : Option Nat) (a : Address) :
    (w.call MockHost.native owner a .init).1 = m.respondInit.1 ∧
      ∃ ds', Book.Kept ⟨m.respondInit.2.instanceAt, m.respondInit.2.nameAt, w.client.trace, ds⟩ ds'
        m.respondInit.2 (w.call MockHost.native owner a .init).2 := by
  let B : Book := ⟨m.respondInit.2.instanceAt, m.respondInit.2.nameAt, w.client.trace, ds⟩
  have hend : (MockHost.native.respond a .init w.native).EndsWith fun answers r =>
      r.1 = m.respondInit.1 ∧ r.2.mock = some m.respondInit.2 ∧ answers = [] := by
    show (MockHost.respond .init w.native).EndsWith _
    unfold MockHost.respond
    rw [hm, hb]
    exact ⟨rfl, rfl, rfl⟩
  obtain ⟨answers, events, ht, hdeeds, hreply, hm', rfl⟩ :=
    World.call_deed B.instanceAt B.nameAt hend owner
  refine ⟨hreply, [.made ⟨B.instanceAt m.respondInit.1.handle, .init, B.nameAt none, []⟩], hm', rfl, rfl,
    ⟨events, ht, fun rest => (hdeeds rest).trans ?_⟩, ha.respondInit _⟩
  dsimp only [Call.handle?, Option.getD_none] at hreply ⊢
  rw [hreply]
  rfl

/-! ## Steps of a test -/

/-- What a test may do here: faults stay with the mock, which is the only one and is called by the
library alone; what makes nothing fails; and an instance or the signature is asked for on the thread of
the mock. -/
def MockStep.IsRegular : MockStep → Prop
  | client (.create _) onThread | client .signature onThread => onThread = true
  | expectInitFailure code => code.isOk = false
  | takeFaults | dropMock | newMock | raw .. => False
  | _ => True

namespace MockSession

variable {s s' : Session MockHost} {ds : List Deed} {t : MockStep}

/-- The mock keeps account of the deeds of a test, and knows the handle of each solver. -/
structure Audited (ds : List Deed) (s : Session MockHost) : Prop where
  settled : Settled s
  account : ∃ m, (host s).mock = some m ∧ Account ds m ∧
    ∀ x, s.stage.HasSolver x → ∃ id, m.instanceAt x.handle = some id

theorem audited_start (opening : Session.Opening) : Audited [] (Session.start opening ({} : MockHost)).2 := by
  refine ⟨settled_start opening, ?_⟩
  obtain ⟨trace, hs, -⟩ := Session.start_stage opening ({} : MockHost)
  have hnative : (Session.start opening ({} : MockHost)).2.stage.world.native = {} := by
    rw [hs]
  refine ⟨{}, congrArg MockHost.mock hnative, account_empty, fun x hx => ?_⟩
  rw [hs] at hx
  rcases hx with ⟨key, hk⟩ | hx
  · cases hk
  · cases hx

/-- Nothing is called. -/
theorem deeds_of_inner {m : Mock} {events : List Event} (ht : t.told? = none)
    (hm : (host (step t s).2).mock = some m) (htrace : (step t s).2.trace = s.trace ++ events)
    (he : ∀ e ∈ events, e.IsInner) : deeds t s = [] := by
  have hnil := deedsIn_inner m.instanceAt m.nameAt he [] []
  rw [List.append_nil] at hnil
  unfold deeds
  dsimp only
  rw [ht, hm, htrace, List.drop_left]
  exact hnil

theorem Audited.told (h : Audited ds s) {f : Mock → Except Trouble Mock} (ht : t.told? = some f)
    (hstep : step t s = tell f s)
    (hp : ∀ code, t = .expectInitFailure code →
      (∀ m, (host s).mock = some m → m.pending = none) ∧ code.isOk = false) :
    Audited (ds ++ deeds t s) (step t s).2 := by
  obtain ⟨m, hm, ha, hknown⟩ := h.account
  have hsettled := h.settled.step t
  have hdeeds : deeds t s = if (tell f s).1.isDone then [.told t] else [] := by
    unfold deeds
    dsimp only
    rw [ht, hstep]
    cases (tell f s).1 <;> rfl
  cases hf : f m with
  | error e =>
    have htell : tell f s = (.stopped (.panic e.payload), s) := by
      unfold tell onMock
      rw [hm]
      dsimp only
      rw [hf]
    rw [hstep, htell] at hsettled
    rw [hdeeds, hstep, htell]
    exact ⟨hsettled, m, hm, (List.append_nil ds).symm ▸ ha, hknown⟩
  | ok m' =>
    have htell : tell f s = (.done .nothing, setMock (some m') s) := by
      unfold tell onMock
      rw [hm]
      dsimp only
      rw [hf]
    rw [hstep, htell] at hsettled
    rw [hdeeds, hstep, htell]
    have ha' := ha.told ht hf fun code hcode => ⟨(hp code hcode).1 m hm, (hp code hcode).2⟩
    refine ⟨hsettled, m', rfl, ha', fun x hx => ?_⟩
    rw [(told_of_step ht hf).alike.instanceAt]
    exact hknown x hx

/-- Nothing is told or called. -/
theorem Audited.idle (h : Audited ds s) (ht : t.told? = none)
    (hhost : host (step t s).2 = host s) (hsolvers : (step t s).2.solvers = s.solvers)
    {events : List Event} (htrace : (step t s).2.trace = s.trace ++ events)
    (he : ∀ e ∈ events, e.IsInner) : Audited (ds ++ deeds t s) (step t s).2 := by
  obtain ⟨m, hm, ha, hknown⟩ := h.account
  have hm' : (host (step t s).2).mock = some m := hhost ▸ hm
  rw [deeds_of_inner ht hm' htrace he, List.append_nil]
  refine ⟨h.settled.step t, m, hm', ha, fun x hx => hknown x ?_⟩
  rcases hx with ⟨key, hk⟩ | hx
  · exact .inl ⟨key, (congrArg (·.get? key) hsolvers).symm.trans hk⟩
  · cases hx

theorem Audited.ask (h : Audited ds s) {f : Mock → Answer} (ht : t.told? = none)
    (hstep : step t s = ask f s) : Audited (ds ++ deeds t s) (step t s).2 := by
  have hsame : (step t s).2 = s := by
    rw [hstep]
    unfold MockSession.ask onMock
    cases (host s).mock <;> rfl
  exact h.idle ht (congrArg host hsame) (congrArg Session.solvers hsame)
    ((congrArg Session.trace hsame).trans (List.append_nil _).symm) (List.forall_mem_nil _)

theorem Audited.simulate (h : Audited ds s) {slot : Slot} {id : Nat} {dialogue : Hook → Dialogue Answer}
    (ht : t.told? = none) (hstep : step t s = simulate slot id dialogue s) :
    Audited (ds ++ deeds t s) (step t s).2 := by
  have hwent : (step t s).2 = s ∨ ∃ d : Dialogue Answer, (step t s).2 = (s.converse d).2 := by
    rw [hstep]
    unfold MockSession.simulate onMock
    cases (host s).mock with
    | none => exact .inl rfl
    | some m =>
      dsimp only
      cases m.hook slot id with
      | error e => exact .inl rfl
      | ok hook => exact .inr ⟨dialogue hook, rfl⟩
  rcases hwent with hsame | ⟨d, hd⟩
  · exact h.idle ht (congrArg host hsame) (congrArg Session.solvers hsame)
      ((congrArg Session.trace hsame).trans (List.append_nil _).symm) (List.forall_mem_nil _)
  · obtain ⟨events, htrace, hv⟩ := (d.run_visits s.world.client).events
    exact h.idle ht ((congrArg host hd).trans rfl) ((congrArg Session.solvers hd).trans rfl)
      ((congrArg Session.trace hd).trans htrace) fun e he => (hv e he).isInner

/-! ## Steps of a client -/

/-- The account of a step is closed. -/
theorem Audited.close {B : Book} {b : Bool} (hsettled : Settled (step t s).2) (ht : t.told? = none)
    (hbefore : B.before = s.trace) (hdeeds : B.deeds = ds) {st : Stage MockHost} (hb : st.Booked B b)
    (hmock : (host (step t s).2).mock = st.world.native.mock)
    (htrace : (step t s).2.trace = st.world.client.trace)
    (hk : ∀ x, (step t s).2.stage.HasSolver x → st.HasSolver x) :
    Audited (ds ++ deeds t s) (step t s).2 := by
  obtain ⟨ds', m, hkept⟩ := hb.kept
  obtain ⟨events, hevents, hadds⟩ := hkept.events
  have hm := hmock.trans hkept.mock
  have hdeeds' : deeds t s = ds' := by
    unfold deeds
    dsimp only
    rw [ht, hm, htrace, hevents, hbefore, List.drop_left]
    dsimp only
    rw [hkept.instances, hkept.names]
    exact hadds.eq
  rw [hdeeds', ← hdeeds]
  refine ⟨hsettled, m, hm, hkept.account, fun x hx => ?_⟩
  rw [hkept.instances]
  exact hb.known x (hk x hx)

/-- A solver is made, and put under a key. -/
theorem create_booked {m : Mock} (hs : s.stage.Sound) (hm : (host s).mock = some m) (ha : Account ds m)
    (hthread : (host s).onThread = true)
    (hknown : ∀ x, s.stage.HasSolver x → ∃ id, m.instanceAt x.handle = some id) (key : Int) :
    ∃ B : Book, B.before = s.trace ∧ B.deeds = ds ∧
      (s.create MockHost.native key).2.stage.Booked B true := by
  unfold Session.create Session.onInterface
  cases s.interface? with
  | none =>
    refine ⟨⟨m.instanceAt, m.nameAt, s.trace, ds⟩, rfl, rfl, ⟨[], m, hm, rfl, rfl, ?_, ?_⟩, hthread, hknown⟩
    · exact ⟨[], (List.append_nil _).symm, Book.adds_nil _⟩
    · exact (List.append_nil ds).symm ▸ ha
  | some l =>
    let called := s.world.call MockHost.native none (l.symbols .init) .init
    let B : Book := ⟨m.respondInit.2.instanceAt, m.respondInit.2.nameAt, s.trace, ds⟩
    obtain ⟨hreply, ds', hkept⟩ := Book.kept_init ha hm hthread none (l.symbols .init)
    have hthread' : called.2.native.onThread = true := (World.call_onThread none _ _ s.world).trans hthread
    have hasked : Stage.Move MockHost.native [.init] s.stage { s.stage with world := called.2 } :=
      .ask (List.mem_singleton_self _) rfl
    have hone (e : Event) (he : e.IsRemark) : B.Adds [e] [] :=
      Book.adds_remarks (List.forall_mem_singleton.mpr he)
    have hold (x : Solver) (hx : s.stage.HasSolver x) : ∃ id, B.instanceAt x.handle = some id := by
      obtain ⟨id, hid⟩ := hknown x hx
      exact ⟨id, respondInit_instanceAt hid⟩
    refine ⟨B, rfl, rfl, ?_⟩
    dsimp only
    rw [Session.create_apply]
    dsimp only
    split_ifs with hok
    · let made := (called.2.note [.notice .created]).newborn l.symbols called.1.handle
      let opened : Session MockHost :=
        { s with world := (called.2.note [.notice .created]).opened called.1.handle }
      have htold : Stage.Move MockHost.native [.init] { s.stage with world := called.2 }
          { s.stage with world := called.2.note [.notice .created] } := .tell .created
      have hbegot : Stage.Move MockHost.native [.init]
          { s.stage with world := called.2.note [.notice .created] } (opened.stageWith (some made)) :=
        .beget (List.mem_singleton_self _) rfl
      have hopened : (opened.stageWith (some made)).Booked B true := by
        have hcreated : B.Kept ds' m.respondInit.2 (called.2.note [.notice .created]) :=
          hkept.remark rfl rfl (hone _ trivial)
        refine ⟨⟨ds', _, hcreated.remark rfl rfl ?_⟩, hthread', ?_⟩
        · exact Book.adds_of_inner (List.forall_mem_singleton.mpr trivial) rfl
        · rintro x (hx | hx)
          · exact hold x (.inl hx)
          · cases hx
            rw [hreply] at hok
            show ∃ id, B.instanceAt called.1.handle = some id
            rw [hreply]
            exact ha.respondInit_made hok
      have hmoves := Session.stage_keepSolver (N := MockHost.native) (s := opened)
        (List.mem_singleton_self EntryPoint.release) hs.keys l key made
      exact Stage.Moves.induct (fun _ _ hmove hs hb => hmove.booked (by decide) (by decide) hs hb) hmoves
        (hbegot.sound (htold.sound (hasked.sound hs))) hopened
    · exact ⟨⟨ds', _, hkept.remark rfl rfl (hone (.notice (.returned .init called.1.code)) trivial)⟩,
        hthread', hold⟩

theorem Audited.client (h : Audited ds s) {action : Step} {b : Bool}
    (hr : (MockStep.client action b).IsRegular) :
    Audited (ds ++ deeds (.client action b) s) (step (.client action b) s).2 := by
  obtain ⟨m, hm, ha, hknown⟩ := h.account
  have hsettled := h.settled.step (.client action b)
  let s₁ := setHost { host s with onThread := b } s
  have hs₁ : s₁.stage.Sound := h.settled.sound.of_client rfl (.refl _ _)
  by_cases hcreate : ∃ key, action = .create key
  · obtain ⟨key, rfl⟩ := hcreate
    obtain rfl : b = true := hr
    obtain ⟨B, hbefore, hdeeds, hb⟩ := create_booked (s := s₁) hs₁ hm ha rfl hknown key
    exact .close hsettled rfl hbefore hdeeds hb rfl rfl fun x hx => hx
  · let B : Book := ⟨m.instanceAt, m.nameAt, s.trace, ds⟩
    have hb : s₁.stage.Booked B b :=
      ⟨⟨[], m, hm, rfl, rfl, ⟨[], (List.append_nil _).symm, B.adds_nil⟩, (List.append_nil ds).symm ▸ ha⟩, rfl,
        hknown⟩
    have hinit : .init ∉ action.entries := by
      cases action <;> first | exact absurd ⟨_, rfl⟩ hcreate | simp [Step.entries]
    have hsignature (hmem : .signature ∈ action.entries) : b = true := by
      cases action <;> first | exact hr | simp [Step.entries] at hmem
    have hmoves := Session.step_moves (N := MockHost.native) (s := s₁) hs₁.keys action
    have hb' := Stage.Moves.induct (fun _ _ hmove hs hb => hmove.booked hinit hsignature hs hb) hmoves
      hs₁ hb
    exact .close hsettled rfl rfl rfl hb' rfl rfl fun x hx => hx

/-! ## Runs of a test -/

/-- **Each step of a test is accounted for.** -/
theorem Audited.step (h : Audited ds s) (hr : t.IsRegular)
    (hp : ∀ code, t = .expectInitFailure code → ∀ m, (host s).mock = some m → m.pending = none) :
    Audited (ds ++ deeds t s) (step t s).2 := by
  have hno {t : MockStep} (ht : ∀ code, t ≠ .expectInitFailure code) (code : Code)
      (he : t = .expectInitFailure code) :
      (∀ m, (host s).mock = some m → m.pending = none) ∧ code.isOk = false := absurd he (ht code)
  cases t with
  | client action b => exact h.client hr
  | expectInit id => exact h.told rfl rfl (hno nofun)
  | expectInitFailure code =>
    refine h.told rfl rfl fun code' he => ?_
    cases he
    exact ⟨hp code rfl, hr⟩
  | expect id call => exact h.told rfl rfl (hno nofun)
  | setSignature text code => exact h.told rfl rfl (hno nofun)
  | setOptions id offers => exact h.told rfl rfl (hno nofun)
  | simulateTerminate id => exact h.simulate rfl rfl
  | simulateExport id clause => exact h.simulate rfl rfl
  | outstanding => exact h.ask rfl rfl
  | faults => exact h.ask rfl rfl
  | verify => exact h.ask rfl rfl
  | takeFaults => exact hr.elim
  | dropMock => exact hr.elim
  | newMock => exact hr.elim
  | raw key c b => exact hr.elim

/-- By induction on the steps. -/
theorem Audited.after {steps : List MockStep} (h : Audited ds s) (hr : ∀ t ∈ steps, t.IsRegular)
    (hp : ∀ before code rest, steps = before ++ .expectInitFailure code :: rest →
      ∀ m, (host (after before s)).mock = some m → m.pending = none) :
    Audited (ds ++ chronicle steps s) (after steps s) := by
  induction steps generalizing ds s with
  | nil => exact (List.append_nil ds).symm ▸ h
  | cons t ts ih =>
    have hstep := h.step (hr t List.mem_cons_self) fun code he => hp [] code ts (he ▸ rfl)
    have hafter := ih hstep (fun t ht => hr t (List.mem_cons_of_mem _ ht)) fun before code rest he =>
      hp (t :: before) code rest (he ▸ rfl)
    rw [List.append_assoc] at hafter
    exact hafter

/-- **A test passes just if all went as expected.** For any steps of a test with a new mock, in which an
init that fails is expected only when no other init is, the mock finds no fault and has nothing
outstanding in the end just if the inits that were expected are those that were called, a signature was
there for each call for it, and the calls on each instance from its init to its release are those that
were expected of it, one by one and each at its time. -/
theorem verify_iff_fulfilled (opening : Session.Opening) (steps : List MockStep)
    (hr : ∀ t ∈ steps, t.IsRegular)
    (hp : ∀ before code rest, steps = before ++ .expectInitFailure code :: rest →
      ∀ m, (host (after before (Session.start opening {}).2)).mock = some m → m.pending = none) :
    (step .verify (after steps (Session.start opening {}).2)).1 = .done .nothing ↔
      Fulfilled (chronicle steps (Session.start opening {}).2) := by
  obtain ⟨-, m, hm, ha, -⟩ := (audited_start opening).after hr hp
  rw [List.nil_append] at ha
  have hanswer : (step .verify (after steps (Session.start opening {}).2)).1 = answerOf m.verify := by
    show (ask (fun m => answerOf m.verify) _).1 = _
    unfold ask onMock
    rw [hm]
  rw [← ha.verify_iff, hanswer]
  cases m.verify with
  | ok u => exact ⟨fun _ => rfl, fun _ => rfl⟩
  | error e => exact ⟨nofun, nofun⟩

/-- An init that fails, and a solver that is asked once. -/
def askedOnce : List MockStep :=
  [.expectInitFailure ⟨5⟩, .client (.create 1) true, .expectInit 1, .client (.create 1) true,
    .setSignature none ⟨3⟩, .client .signature true, .expect 1 ⟨.val 3 (-3), .ok⟩,
    .client (.val 1 (.integer 3)) false, .client (.release 1) true]

theorem asked_once_passes :
    (step .verify (after askedOnce (Session.start .known {}).2)).1 = .done .nothing ∧
      Fulfilled (chronicle askedOnce (Session.start .known {}).2) := by
  have hpasses : (step .verify (after askedOnce (Session.start .known {}).2)).1 = .done .nothing := by rfl
  refine ⟨hpasses, (verify_iff_fulfilled .known askedOnce ?_ ?_).mp hpasses⟩
  · simp only [askedOnce, List.forall_mem_cons]
    exact ⟨rfl, rfl, trivial, rfl, trivial, rfl, trivial, trivial, trivial, List.forall_mem_nil _⟩
  · intro before code rest he m hm
    cases before with
    | nil =>
      cases hm
      rfl
    | cons t before =>
      have htail : askedOnce.tail = before ++ .expectInitFailure code :: rest := congrArg List.tail he
      have hmem : .expectInitFailure code ∈ askedOnce.tail :=
        htail ▸ List.mem_append_right _ List.mem_cons_self
      simp [askedOnce] at hmem

end MockSession
end SatClient
