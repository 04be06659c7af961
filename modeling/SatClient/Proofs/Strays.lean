import SatClient.Proofs.Settled

/-!
# Calls that go astray

A native solver that calls back to a bridge which is gone reads memory that has been freed, and nothing is
known of what comes of it. Whether there are such calls depends on the native solver. The mock calls back
only through what is registered with it, and that is the bridge of a solver which is there, unless the mock
has refused to release the solver.

* `strays`: the solvers to whose bridges there have been such calls
* `Astray`: how a trace grows by such calls
* `Dialogue.CallsBack`: through which registrations a native solver calls back;
  **`Dialogue.run_astray`**: a call goes astray to none but a registered bridge that is gone
* `Stage.Move.astray`: with the mock, none goes astray in a move of the library but after a refusal
* **`MockSession.strays_after_refusal`**: nor in a whole session
-/

namespace SatClient

variable {α β σ : Type}

/-! ## Strays in a trace -/

def Event.stray? : Event → Option Nat
  | dangling i => some i
  | _ => none

/-- The solvers to whose bridges, then gone, a native solver has called back. -/
def strays (trace : List Event) : List Nat := trace.filterMap Event.stray?

@[simp] theorem strays_append (l l' : List Event) : strays (l ++ l') = strays l ++ strays l' :=
  List.filterMap_append

theorem strays_of_isRemark {events : List Event} (h : ∀ e ∈ events, e.IsRemark) : strays events = [] := by
  refine List.filterMap_eq_nil_iff.mpr fun e he => ?_
  have hn := h e he
  cases e <;> first | rfl | cases hn

theorem Bridge.Visit.strays {i : Nat} {b b' : Bridge} {events : List Event}
    (h : Bridge.Visit i b events b') : strays events = [] := by
  cases h <;> rfl

/-- A trace grows by calls that go astray to no solvers but those described. -/
def Astray (P : Nat → Prop) (trace trace' : List Event) : Prop :=
  ∃ events, trace' = trace ++ events ∧ ∀ i ∈ strays events, P i

namespace Astray

variable {P Q : Nat → Prop} {t t' t'' events : List Event}

theorem refl (t : List Event) : Astray P t t := ⟨[], (List.append_nil t).symm, List.forall_mem_nil _⟩

theorem trans (h : Astray P t t') (h' : Astray P t' t'') : Astray P t t'' := by
  obtain ⟨events, rfl, hs⟩ := h
  obtain ⟨events', rfl, hs'⟩ := h'
  refine ⟨events ++ events', List.append_assoc .., ?_⟩
  rw [strays_append]
  exact List.forall_mem_append.mpr ⟨hs, hs'⟩

theorem mono (h : Astray P t t') (hPQ : ∀ i, P i → Q i) : Astray Q t t' := by
  obtain ⟨events, ht, hs⟩ := h
  exact ⟨events, ht, fun i hi => hPQ i (hs i hi)⟩

/-- No call goes astray. -/
theorem none (t : List Event) (h : strays events = []) : Astray P t (t ++ events) :=
  ⟨events, rfl, by rw [h]; exact List.forall_mem_nil _⟩

theorem one {i : Nat} (t : List Event) (h : strays events = [i]) (hi : P i) : Astray P t (t ++ events) :=
  ⟨events, rfl, by rw [h]; exact List.forall_mem_singleton.mpr hi⟩

end Astray

/-- A call goes astray to the bridge of a solver only after the release of the solver was refused. -/
def StraysAfterRefusal (trace : List Event) : Prop :=
  ∀ before i after, trace = before ++ .dangling i :: after → i ∈ refusals before

theorem StraysAfterRefusal.grow {t t' : List Event} (h : StraysAfterRefusal t)
    (hg : Astray (· ∈ refusals t) t t') : StraysAfterRefusal t' := by
  obtain ⟨events, rfl, hs⟩ := hg
  intro before i after he
  rcases old_or_new he with ⟨rest, ht, -⟩ | ⟨mid, rfl, hev⟩
  · exact h before i rest ht
  · have hi : i ∈ strays events := by
      rw [hev, strays_append]
      exact List.mem_append_right _ List.mem_cons_self
    rw [refusals_append]
    exact List.mem_append_left _ (hs i hi)

/-! ## Dialogues -/

/-- Whatever is answered to it, a dialogue calls back through no registrations but those described. -/
def Dialogue.CallsBack (P : Hook → Prop) : Dialogue α → Prop
  | done _ => True
  | poll hook next => P hook ∧ ∀ answer, (next answer).CallsBack P
  | offer hook _ next => P hook ∧ next.CallsBack P
  | unregistered _ next => next.CallsBack P

theorem Dialogue.CallsBack.mono {P Q : Hook → Prop} {d : Dialogue α} (h : d.CallsBack P)
    (hPQ : ∀ hook, P hook → Q hook) : d.CallsBack Q := by
  induction d with
  | done a => trivial
  | poll hook next ih => exact ⟨hPQ hook h.1, fun answer => ih answer (h.2 answer)⟩
  | offer hook memory next ih => exact ⟨hPQ hook h.1, ih h.2⟩
  | unregistered slot next ih => exact ih h

/-- What two dialogues do in the same way, each of them does. By induction on the one. -/
theorem Dialogue.Matches.callsBack {P : Hook → Prop} {R : α → β → Prop} {d : Dialogue α}
    {d' : Dialogue β} (h : d.Matches P R d') : d.CallsBack P := by
  induction d generalizing d' with
  | done a => trivial
  | poll hook next ih =>
    cases d' with
    | poll hook' next' => exact ⟨h.2.1, fun answer => ih answer (h.2.2 answer)⟩
    | _ => exact h.elim
  | offer hook memory next ih =>
    cases d' with
    | offer hook' memory' next' => exact ⟨h.2.2.1, ih h.2.2.2⟩
    | _ => exact h.elim
  | unregistered slot next ih =>
    cases d' with
    | unregistered slot' next' => exact ih h.2
    | _ => exact h.elim

namespace Client

theorem Visit.keys {c c' : Client} (h : Visit c c') : c'.bridges.keys = c.bridges.keys := by
  cases h with
  | aside he => rfl
  | bridge hb hv he => exact Keyed.keys_set_of_mem ((Keyed.mem_keys_iff _ _).mpr ⟨_, hb⟩) _

theorem poll_astray (hook : Hook) (c : Client) :
    Astray (fun i => hook = .own i ∧ i ∉ c.bridges.keys) c.trace (c.poll hook).2.trace := by
  obtain ⟨callback, i⟩ := hook
  simp only [poll]
  cases callback with
  | foreign => exact .none _ rfl
  | trampoline =>
    cases hb : c.bridges.get? i with
    | none => exact .one _ rfl ⟨rfl, (Keyed.get?_eq_none_iff _ _).mp hb⟩
    | some b =>
      refine .none _ ?_
      rw [strays_append, (b.poll_visit i).strays]
      rfl

theorem offer_astray (hook : Hook) (memory : Option (List Int32)) (c : Client) :
    Astray (fun i => hook = .own i ∧ i ∉ c.bridges.keys) c.trace (c.offer hook memory).trace := by
  obtain ⟨callback, i⟩ := hook
  simp only [offer]
  cases callback with
  | foreign => exact .none _ rfl
  | trampoline =>
    cases hb : c.bridges.get? i with
    | none => exact .one _ rfl ⟨rfl, (Keyed.get?_eq_none_iff _ _).mp hb⟩
    | some b =>
      refine .none _ ?_
      rw [strays_append, (b.offer_visit i _).strays]
      rfl

end Client

/-- **A call goes astray to none but a registered bridge that is gone.** By induction on the dialogue, in
which no bridge comes or goes. -/
theorem Dialogue.run_astray {P : Hook → Prop} {d : Dialogue α} (h : d.CallsBack P) (c : Client) :
    Astray (fun i => P (.own i) ∧ i ∉ c.bridges.keys) c.trace (d.run c).2.trace := by
  induction d generalizing c with
  | done a => exact .refl _
  | poll hook next ih =>
    have hrest := ih (c.poll hook).1 (h.2 _) (c.poll hook).2
    rw [(c.poll_visit hook).keys] at hrest
    exact ((c.poll_astray hook).mono fun i hi => ⟨hi.1 ▸ h.1, hi.2⟩).trans hrest
  | offer hook memory next ih =>
    have hrest := ih h.2 (c.offer hook memory)
    rw [(c.offer_visit hook memory).keys] at hrest
    exact ((c.offer_astray hook memory).mono fun i hi => ⟨hi.1 ▸ h.1, hi.2⟩).trans hrest
  | unregistered slot next ih => exact (Astray.none _ rfl).trans (ih h _)

theorem World.call_astray {N : Native σ} {P : Hook → Prop} {owner : Option Nat} {a : Address} {c : Call}
    {w : World σ} (h : (N.respond a c w.native).CallsBack P) :
    Astray (fun i => P (.own i) ∧ i ∉ w.client.bridges.keys) w.client.trace
      (w.call N owner a c).2.client.trace := by
  have hcalled : Astray (fun i => P (.own i) ∧ i ∉ w.client.bridges.keys) w.client.trace
      (w.client.note [.called owner a c]).trace := .none _ rfl
  exact (hcalled.trans (Dialogue.run_astray h _)).trans (.none _ rfl)

/-! ## The mock -/

/-- Without a handle nobody is called back. -/
theorem MockHost.respond_alone {host : MockHost} {c : Call} (hc : ¬ ∃ h, c.handle? = some h ∧ h ≠ 0) :
    ∃ r, host.respond c = .done r := by
  unfold respond
  cases host.mock with
  | none => exact ⟨_, rfl⟩
  | some m =>
    suffices h : ∃ r, m.respond host.onThread c = .done r by
      obtain ⟨r, hr⟩ := h
      exact ⟨_, congrArg (Dialogue.map _) hr⟩
    unfold Mock.respond
    split
    · exact ⟨_, rfl⟩
    · exact ⟨_, rfl⟩
    · exact ⟨_, rfl⟩
    · exact ⟨_, rfl⟩
    · exact absurd ⟨_, ‹_›, Nat.succ_ne_zero _⟩ hc

/-- What is registered with an instance of the mock. -/
def MockHost.Registers (host : MockHost) (hook : Hook) : Prop :=
  ∃ m slot id, host.mock = some m ∧ m.registration slot id = some hook

/-- The mock calls back through what is registered with it. -/
theorem MockHost.respond_callsBack {host : MockHost} (hv : apart.valid host) (c : Call) :
    (host.respond c).CallsBack host.Registers := by
  by_cases hc : ∃ h, c.handle? = some h ∧ h ≠ 0
  · obtain ⟨h, hc, h0⟩ := hc
    refine (apart.agrees 0 c h host host hv hv hc h0 rfl).callsBack.mono fun hook hh => ?_
    cases hm : host.mock with
    | none =>
      obtain ⟨q, slot, hq, -⟩ := hh
      have hq : host.part h = some q := hq
      rw [part, hm] at hq
      cases hq
    | some m =>
      obtain ⟨id, slot, -, hreg⟩ := (holds_iff hm).mp hh
      exact ⟨m, slot, id, hm, hreg⟩
  · obtain ⟨r, hr⟩ := respond_alone hc
    rw [hr]
    trivial

namespace Stage

variable {raw : Prop} {st st' : Stage MockHost}

/-- A bridge that is registered is there, or the release of its solver was refused. -/
theorem Kept.refused_of_gone (hk : st.Kept raw) (hs : st.Sound) {i : Nat}
    (hi : st.world.native.Registers (.own i)) (hgone : i ∉ st.world.client.bridges.keys) :
    i ∈ refusals st.world.client.trace := by
  obtain ⟨m, slot, id, hm, hreg⟩ := hi
  rcases hk.claims m hm slot id _ hreg with ⟨-, hf⟩ | ⟨k, h, hown, -, -, hor⟩
  · cases hf
  · cases hown
    exact hor.resolve_left fun hh => hgone ((hs.held i).mpr hh)

theorem Kept.call_astray (hk : st.Kept raw) (hs : st.Sound) (hv : MockHost.apart.valid st.world.native)
    (owner : Option Nat) (a : Address) (c : Call) :
    Astray (· ∈ refusals st.world.client.trace) st.world.client.trace
      (st.world.call MockHost.native owner a c).2.client.trace :=
  (World.call_astray (N := MockHost.native) (MockHost.respond_callsBack hv c)).mono
    fun _ hi => hk.refused_of_gone hs hi.1 hi.2

/-- **In a move of the library a call goes astray only after a refusal.** -/
theorem Move.astray {es : List EntryPoint} (h : Move MockHost.native es st st') (hs : st.Sound)
    (hk : st.Kept raw) (hv : MockHost.apart.valid st.world.native) :
    Astray (· ∈ refusals st.world.client.trace) st.world.client.trace st'.world.client.trace := by
  cases h with
  | tell n => exact .none _ rfl
  | unload => exact .none _ rfl
  | ask he hc => exact hk.call_astray hs hv _ _ _
  | operate hsolver h =>
    rcases h.calls_or_remarks with ⟨c, -, rfl⟩ | ⟨-, events, ht, he⟩
    · exact hk.call_astray hs hv _ _ _
    · show Astray _ _ _
      rw [ht]
      exact .none _ (strays_of_isRemark he)
  | beget he hn => exact .none _ rfl
  | keep hn hsolver => exact .refl _
  | @finish key solver events he hsolver ht =>
    obtain ⟨remarks, hremarks, hr⟩ := Solver.close_remarks
      ((⟨solver, st.world⟩ : Focus MockHost).call MockHost.native (.release solver.handle)).2 ht
    show Astray _ _ (Solver.close _).client.trace
    rw [hremarks]
    exact (hk.call_astray hs hv _ _ _).trans (.none _ (strays_of_isRemark hr))

end Stage

/-! ## Sessions with the mock -/

namespace MockSession

open MockHost

variable {s : Session MockHost}

/-- What each solver has registered is its own, and no call has gone astray but after a refusal. -/
structure Wary (s : Session MockHost) : Prop where
  good : Good True s
  settled : Settled s
  strays : StraysAfterRefusal s.trace

namespace Wary

theorem moves {es : List EntryPoint} {s' : Session MockHost} (h : Wary s)
    (hm : Stage.Moves native es s.stage s'.stage) : Wary s' := by
  let P (st : Stage MockHost) : Prop :=
    st.Kept True ∧ st.Settled apart ∧ StraysAfterRefusal st.world.client.trace
  have hP : P s'.stage := by
    refine Stage.Moves.induct (P := P) ?_ hm h.good.sound ⟨h.good.kept, h.settled.settled, h.strays⟩
    rintro st st' hm hs ⟨hk, hsettled, hstrays⟩
    exact ⟨hm.kept hs hk, hm.settled hs hsettled, hstrays.grow (hm.astray hs hk hsettled.valid)⟩
  have hs : s'.stage.Sound := hm.sound h.good.sound
  exact ⟨⟨hs, hP.1⟩, ⟨hs, hP.2.1⟩, hP.2.2⟩

theorem onThread {f : Session MockHost → Answer × Session MockHost} (h : Wary s)
    (hf : ∀ s, Wary s → Wary (f s).2) (b : Bool) : Wary (onThread b f s).2 := by
  have hset {s : Session MockHost} (h : Wary s) (b : Bool) :
      Wary (MockSession.setHost { host s with onThread := b } s) :=
    ⟨h.good.setHost id (.of_mock_eq rfl), h.settled.setHost _ h.settled.settled.valid fun _ _ hp _ => hp,
      h.strays⟩
  exact hset (hf _ (hset h b)) true

theorem converse {β : Type} {d : Dialogue β} (h : Wary s) (hd : d.CallsBack (host s).Registers) :
    StraysAfterRefusal (s.converse d).2.trace :=
  h.strays.grow ((Dialogue.run_astray hd s.world.client).mono
    fun _ hi => h.good.kept.refused_of_gone h.good.sound hi.1 hi.2)

theorem raw (h : Wary s) (key : Option Int) (c : RawCall) : Wary (raw key c s).2 :=
  ⟨h.good.rawCall key c, h.settled.raw key c, h.converse (respond_callsBack h.settled.settled.valid _)⟩

theorem simulate (h : Wary s) (slot : Slot) (id : Nat) {dialogue : Hook → Dialogue Answer}
    (hd : ∀ hook, (host s).Registers hook → (dialogue hook).CallsBack (host s).Registers) :
    StraysAfterRefusal (simulate slot id dialogue s).2.trace := by
  unfold MockSession.simulate onMock
  cases hm : (host s).mock with
  | none => exact h.strays
  | some m =>
    dsimp only
    cases hh : m.hook slot id with
    | error t => exact h.strays
    | ok hook => exact h.converse (hd hook ⟨m, slot, id, hm, registration_of_hook hh⟩)

end Wary

/-- What calls nobody leaves the trace as it is. -/
theorem onMock_trace {f : Mock → Answer × Session MockHost} (hf : ∀ m, (f m).2.trace = s.trace) :
    (onMock s f).2.trace = s.trace := by
  unfold onMock
  cases (host s).mock with
  | none => rfl
  | some m => exact hf m

theorem tell_trace (f : Mock → Except Mock.Trouble Mock) (s : Session MockHost) :
    (tell f s).2.trace = s.trace := by
  refine onMock_trace fun m => ?_
  cases f m <;> rfl

theorem ask_trace (f : Mock → Answer) (s : Session MockHost) : (ask f s).2.trace = s.trace :=
  onMock_trace fun _ => rfl

/-- A step of a test leaves the solvers wary. -/
theorem Wary.step (h : Wary s) (t : MockStep) : Wary (step t s).2 := by
  refine ⟨(h.good.step t).mono fun _ => trivial, h.settled.step t, ?_⟩
  cases t with
  | client action b =>
    have hf (s : Session MockHost) (hs : Wary s) : Wary (s.step native action).2 :=
      hs.moves (Session.step_moves hs.good.sound.keys action)
    exact (h.onThread hf b).strays
  | raw key c b => exact (h.onThread (fun s hs => hs.raw key c) b).strays
  | simulateTerminate id => exact h.simulate _ _ fun hook hh => ⟨hh, fun _ => trivial⟩
  | simulateExport id clause => exact h.simulate _ _ fun hook hh => ⟨hh, trivial⟩
  | expectInit id => exact (tell_trace _ s).symm ▸ h.strays
  | expectInitFailure code => exact (tell_trace _ s).symm ▸ h.strays
  | expect id call => exact (tell_trace _ s).symm ▸ h.strays
  | setSignature text code => exact (tell_trace _ s).symm ▸ h.strays
  | setOptions id offers => exact (tell_trace _ s).symm ▸ h.strays
  | outstanding => exact (ask_trace _ s).symm ▸ h.strays
  | faults => exact (ask_trace _ s).symm ▸ h.strays
  | verify => exact (ask_trace _ s).symm ▸ h.strays
  | takeFaults =>
    unfold MockSession.step onMock
    cases (host s).mock <;> exact h.strays
  | dropMock =>
    unfold MockSession.step dropMock
    split_ifs
    · cases (host s).mock <;> exact h.strays
    · exact h.strays
  | newMock =>
    unfold MockSession.step newMock
    split_ifs <;> exact h.strays

theorem wary_start (opening : Session.Opening) : Wary (Session.start opening ({} : MockHost)).2 := by
  refine ⟨(good_start opening).mono False.elim, settled_start opening, ?_⟩
  intro before i after ht
  refine (Session.start_ofSearch opening ({} : MockHost) (.dangling i) ?_).elim
  rw [ht]
  exact List.mem_append_right _ List.mem_cons_self

/-- **With the mock a call goes astray only after a refusal.** Whatever a test does, the mock calls back to a
bridge that is gone only if it has refused to release the solver before. By induction on the steps. -/
theorem strays_after_refusal (opening : Session.Opening) (steps : List MockStep) :
    StraysAfterRefusal ((after steps (Session.start opening {}).2).finish native).trace := by
  suffices h : ∀ s, Wary s → Wary (after steps s) by
    have hs := h _ (wary_start opening)
    exact (hs.moves (Session.stage_end _)).strays
  induction steps with
  | nil => exact fun _ h => h
  | cons t ts ih => exact fun s h => ih _ (h.step t)

end MockSession
end SatClient
