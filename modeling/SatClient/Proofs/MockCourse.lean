import SatClient.Proofs.Discovery
import SatClient.Proofs.Settled

/-!
# The course of a test

In a step of a client its native solver answers calls, one after the other and each in the state in which
the one before has left it. A test is nothing but turns of a session, in which the mock is put in place by
the test itself; so whatever holds over all turns holds over all steps of a test.

* `Native.Answers`: calls answered one after the other; **`Session.step_answers`**: those of a step
* `MockSession.ByTurns`, **`MockSession.after_byTurns`**: the steps of a test as turns
* `MockSession.Course`: what a step does to the mock; `MockSession.step_course`: there is nothing else
* `MockSession.notes`: what is noted of the steps since the mock was made
* **`MockSession.notes_keep`**: what each step keeps holds of the mock and the notes in the end
-/

namespace SatClient

variable {σ : Type} {N : Native σ} {es : List EntryPoint}

/-! ## Calls one after the other -/

/-- From the state `n` calls are answered, one after the other, and lead to the state `n'`. -/
inductive Native.Answers (N : Native σ) : σ → List Exchange → σ → Prop
  | nil (n : σ) : N.Answers n [] n
  | cons {n n' : σ} {xs : List Exchange} (owner : Option Nat) (a : Address) (c : Call) (client : Client)
      (h : N.Answers ((N.respond a c n).run client).1.2 xs n') :
      N.Answers n (⟨owner, c, ((N.respond a c n).run client).1.1⟩ :: xs) n'

namespace Native.Answers

variable {n n' n'' : σ} {x : Exchange} {xs ys : List Exchange}

theorem append (h : N.Answers n xs n') (h' : N.Answers n' ys n'') : N.Answers n (xs ++ ys) n'' := by
  induction h with
  | nil n => exact h'
  | cons owner a c client _ ih => exact .cons owner a c client (ih h')

theorem split (h : N.Answers n (xs ++ ys) n') : ∃ m, N.Answers n xs m ∧ N.Answers m ys n' := by
  induction xs generalizing n with
  | nil => exact ⟨n, .nil n, h⟩
  | cons x xs ih =>
    cases h with
    | cons owner a c client h =>
      obtain ⟨m, hm, hrest⟩ := ih h
      exact ⟨m, .cons owner a c client hm, hrest⟩

/-- What each answer keeps, all keep. -/
theorem keeps {P : σ → Prop} (h : N.Answers n xs n')
    (hP : ∀ a, ∀ x ∈ xs, ∀ n, P n → (N.respond a x.call n).Ends fun r => P r.2) (hn : P n) : P n' := by
  induction h with
  | nil n => exact hn
  | cons owner a c client _ ih =>
    obtain ⟨hone, hrest⟩ := forall_and.mp fun a => List.forall_mem_cons.mp (hP a)
    exact ih hrest ((hone a _ hn).run client)

/-- The first call is answered in the state at the beginning. -/
theorem first {P : Reply × σ → Prop} (h : N.Answers n (x :: xs) n')
    (hP : ∀ a, (N.respond a x.call n).Ends P) : ∃ m, P (x.reply, m) ∧ N.Answers m xs n' := by
  cases h with
  | cons owner a c client h => exact ⟨_, (hP a).run client, h⟩

end Native.Answers

theorem World.call_answers (owner : Option Nat) (a : Address) (c : Call) (w : World σ) :
    N.Answers w.native [⟨owner, c, (w.call N owner a c).1⟩] (w.call N owner a c).2.native :=
  .cons owner a c (w.client.note [.called owner a c]) (.nil _)

/-! ## Steps of a client -/

namespace Stage

/-- Between two stages calls are answered, and it is these that the trace has grown by. -/
def Asks (N : Native σ) (st st' : Stage σ) : Prop :=
  ∃ xs, exchanges st'.world.client.trace = exchanges st.world.client.trace ++ xs ∧
    N.Answers st.world.native xs st'.world.native

variable {st st' : Stage σ}

theorem Asks.quiet (hn : st'.world.native = st.world.native)
    (ht : exchanges st'.world.client.trace = exchanges st.world.client.trace) : st.Asks N st' :=
  ⟨[], ht.trans (List.append_nil _).symm, hn ▸ .nil _⟩

theorem Asks.trans {st'' : Stage σ} (h : st.Asks N st') (h' : st'.Asks N st'') : st.Asks N st'' := by
  obtain ⟨xs, ht, ha⟩ := h
  obtain ⟨ys, ht', ha'⟩ := h'
  exact ⟨xs ++ ys, by rw [ht', ht, List.append_assoc], ha.append ha'⟩

theorem asks_call (owner : Option Nat) (a : Address) (c : Call) (st : Stage σ) (newborn : Option Solver)
    (solvers : Keyed Int Solver) : st.Asks N ⟨(st.world.call N owner a c).2, solvers, newborn⟩ :=
  ⟨_, World.call_exchanges owner a c st.world, World.call_answers owner a c st.world⟩

theorem exchanges_of_isRemark {events : List Event} (h : ∀ e ∈ events, e.IsRemark) :
    exchanges events = [] := by
  refine List.filterMap_eq_nil_iff.mpr fun e he => ?_
  have := h e he
  cases e <;> first | rfl | cases this

theorem Move.asks (h : Move N es st st') : st.Asks N st' := by
  cases h with
  | tell n => exact .quiet rfl (exchanges_note rfl)
  | unload => exact .quiet rfl (exchanges_note rfl)
  | ask he hc => exact asks_call none _ _ st _ _
  | operate hk h =>
    rcases h.calls_or_remarks with ⟨c, -, rfl⟩ | ⟨hn, events, ht, he⟩
    · exact asks_call _ _ _ st _ _
    · refine .quiet hn ?_
      show exchanges _ = _
      rw [ht, exchanges_note (exchanges_of_isRemark he)]
  | beget he hn => exact .quiet rfl (exchanges_note rfl)
  | keep hn hk => exact .quiet rfl rfl
  | @finish key solver events he hk ht =>
    let called := (⟨solver, st.world⟩ : Focus σ).call N (.release solver.handle)
    obtain ⟨notes, hnotes, hn⟩ := Solver.close_noted_trace called.2 ht
    have hcalled : st.Asks N ⟨called.2.world, st.solvers.erase key, st.newborn⟩ := asks_call _ _ _ st _ _
    refine hcalled.trans (.quiet rfl ?_)
    show exchanges (Solver.close (called.2.note events)).client.trace = _
    rw [hnotes, exchanges_note (exchanges_of_isNote hn)]

/-- By induction on the moves. -/
theorem Moves.asks (h : Moves N es st st') : st.Asks N st' := by
  induction h with
  | refl => exact .quiet rfl rfl
  | tail _ hm ih => exact ih.trans hm.asks

end Stage

/-- **The calls of a step are answered one after the other.** -/
theorem Session.step_answers {s : Session σ} (hs : s.solvers.keys.Nodup) (action : Step) :
    N.Answers s.world.native (exchanges (s.passage N (.client action)).events)
      (s.step N action).2.world.native := by
  obtain ⟨xs, ht, ha⟩ := (step_moves (N := N) hs action).asks
  have ht : exchanges (s.turn N (.client action)).2.trace = exchanges s.trace ++ xs := ht
  rw [exchanges_passage hs] at ht
  rw [List.append_cancel_left ht]
  exact ha

/-! ## Tests as turns -/

theorem Dialogue.run_map {α β : Type} (f : α → β) (d : Dialogue α) (c : Client) :
    (d.map f).run c = (f (d.run c).1, (d.run c).2) := by
  induction d generalizing c with
  | done a => rfl
  | poll hook next ih => exact ih _ _
  | offer hook memory next ih => exact ih _
  | unregistered slot next ih => exact ih _

/-- The answer of the mock that there is. -/
theorem MockHost.respond_of_mock {host : MockHost} {m : Mock} (hm : host.mock = some m) {c : Call}
    {P : Reply × Mock → Prop} (h : (m.respond host.onThread c).Ends P) : (host.respond c).Ends fun r =>
      ∃ m', r.2 = ⟨some m', host.onThread⟩ ∧ P (r.1, m') := by
  unfold respond
  rw [hm]
  exact (h.mono fun r hr => ⟨r.2, rfl, hr⟩).map

/-- A step in which a client acts. -/
def MockStep.isClient : MockStep → Bool
  | .client .. => true
  | _ => false

namespace MockSession

open MockHost

/-- What each answer of the mock keeps, all keep. -/
theorem answers_keep {host' : MockHost} {m : Mock} {b : Bool} {xs : List Exchange} {P : Mock → Prop}
    (h : native.Answers ⟨some m, b⟩ xs host') (hm : P m)
    (hP : ∀ x ∈ xs, ∀ k, P k → (k.respond b x.call).Ends fun r => P r.2) :
    ∃ m', host' = ⟨some m', b⟩ ∧ P m' := by
  refine h.keeps (P := fun host => ∃ k, host = ⟨some k, b⟩ ∧ P k) ?_ ⟨m, rfl, hm⟩
  rintro a x hx n ⟨k, rfl, hk⟩
  have hthere : (⟨some k, b⟩ : MockHost).mock = some k := rfl
  exact (respond_of_mock hthere (hP x hx k hk)).mono fun r ⟨m', hr, hm'⟩ => ⟨m', hr, hm'⟩

variable {s : Session MockHost} {t : MockStep} {m m' : Mock}

/-- A session that comes from another by turns. -/
def ByTurns (s s' : Session MockHost) : Prop := ∃ turns, s' = s.after native turns

namespace ByTurns

variable {s' s'' : Session MockHost}

theorem refl (s : Session MockHost) : ByTurns s s := ⟨[], rfl⟩

theorem trans (h : ByTurns s s') (h' : ByTurns s' s'') : ByTurns s s'' := by
  obtain ⟨turns, rfl⟩ := h
  obtain ⟨turns', rfl⟩ := h'
  exact ⟨turns ++ turns', (List.foldl_append ..).symm⟩

theorem one (t : Turn MockHost) (s : Session MockHost) : ByTurns s (s.turn native t).2 := ⟨[t], rfl⟩

theorem setHost (host' : MockHost) (s : Session MockHost) : ByTurns s (setHost host' s) :=
  one (.native (.done host')) s

/-- A native solver that calls back puts the host in place which is there already. -/
theorem converse {β : Type} (d : Dialogue β) (s : Session MockHost) : ByTurns s (s.converse d).2 := by
  have h := one (.native (d.map fun _ => host s)) s
  have hv : (s.turn native (.native (d.map fun _ => host s))).2 = (s.converse d).2 := by
    show s.visited _ = _
    rw [Session.visited, Dialogue.run_map]
    rfl
  rwa [hv] at h

theorem onThread {f : Session MockHost → Answer × Session MockHost} (hf : ∀ s, ByTurns s (f s).2) (b : Bool)
    (s : Session MockHost) : ByTurns s (onThread b f s).2 :=
  ((setHost { host s with onThread := b } s).trans (hf _)).trans
    (setHost { host (f (MockSession.setHost { host s with onThread := b } s)).2 with onThread := true } _)

theorem onMock {f : Mock → Answer × Session MockHost} (hf : ∀ m, ByTurns s (f m).2) :
    ByTurns s (onMock s f).2 := by
  unfold MockSession.onMock
  cases (host s).mock with
  | none => exact refl s
  | some m => exact hf m

end ByTurns

theorem tell_byTurns (f : Mock → Except Mock.Trouble Mock) (s : Session MockHost) :
    ByTurns s (tell f s).2 := by
  refine .onMock fun m => ?_
  cases f m with
  | ok m' => exact .setHost _ s
  | error t => exact .refl s

/-- Each step of a test is made of turns. -/
theorem step_byTurns (t : MockStep) (s : Session MockHost) : ByTurns s (step t s).2 := by
  have hask (f : Mock → Answer) : ByTurns s (ask f s).2 := .onMock fun _ => .refl s
  have hsimulate (slot : Slot) (id : Nat) (dialogue : Hook → Dialogue Answer) :
      ByTurns s (simulate slot id dialogue s).2 := by
    refine .onMock fun m => ?_
    cases m.hook slot id with
    | error t => exact .refl s
    | ok hook => exact .converse _ s
  cases t with
  | client action b => exact .onThread (fun s => .one (.client action) s) b s
  | expectInit id => exact tell_byTurns _ s
  | expectInitFailure code => exact tell_byTurns _ s
  | expect id call => exact tell_byTurns _ s
  | setSignature text code => exact tell_byTurns _ s
  | setOptions id offers => exact tell_byTurns _ s
  | simulateTerminate id => exact hsimulate _ _ _
  | simulateExport id clause => exact hsimulate _ _ _
  | outstanding => exact hask _
  | faults => exact hask _
  | takeFaults => exact .onMock fun _ => .setHost _ s
  | verify => exact hask _
  | dropMock =>
    unfold MockSession.step dropMock
    split_ifs
    · cases (host s).mock with
      | none => exact .refl s
      | some m => exact .setHost _ s
    · exact .refl s
  | newMock =>
    unfold MockSession.step newMock
    split_ifs
    · exact .refl s
    · exact .setHost _ s
  | raw key c b =>
    have hraw (s : Session MockHost) : ByTurns s (raw key c s).2 :=
      (ByTurns.converse _ s).trans (.setHost _ _)
    exact .onThread hraw b s

/-- **A test is made of turns.** By induction on the steps. -/
theorem after_byTurns (steps : List MockStep) (s : Session MockHost) : ByTurns s (after steps s) := by
  induction steps generalizing s with
  | nil => exact .refl s
  | cons t ts ih => exact (step_byTurns t s).trans (ih _)

theorem ByTurns.sound {s' : Session MockHost} (h : ByTurns s s') (hs : s.stage.Sound) : s'.stage.Sound := by
  obtain ⟨turns, rfl⟩ := h
  exact Session.sound_after hs turns

theorem ByTurns.informed {s' : Session MockHost} (h : ByTurns s s') (hs : s.stage.Sound)
    (hi : s.stage.Informed) : s'.stage.Informed := by
  obtain ⟨turns, rfl⟩ := h
  exact Session.informed_after hs hi turns

/-! ## The mock in a step -/

/-- The native calls of a step that have returned. -/
def asked (t : MockStep) (s : Session MockHost) : List Exchange :=
  exchanges ((step t s).2.trace.drop s.trace.length)

/-- What a step does to the mock `m`, which is there before and after it. -/
inductive Course (t : MockStep) (s : Session MockHost) (m : Mock) : Mock → Prop
  | told {f : Mock → Except Mock.Trouble Mock} {m' : Mock} (ht : t.told? = some f) (hf : f m = .ok m')
      (ha : (step t s).1.isDone = true) : Course t s m m'
  | kept (ht : t.told?.isSome → (step t s).1.isDone = false) (hc : t.isClient = false) : Course t s m m
  | cleared (ht : t = .takeFaults) : Course t s m { m with faults := [] }
  | client {action : Step} {b : Bool} {host' : MockHost} {m' : Mock} (ht : t = .client action b)
      (h : native.Answers ⟨some m, b⟩ (asked t s) host') (hm : host'.mock = some m') : Course t s m m'
  | raw {key : Option Int} {c : RawCall} {b : Bool} {host' : MockHost} {m' : Mock} (ht : t = .raw key c b)
      (handle : Handle) (reply : Reply)
      (h : native.Answers ⟨some m, b⟩ [⟨none, c.call handle, reply⟩] host') (hm : host'.mock = some m') :
      Course t s m m'

theorem onMock_of_mock {f : Mock → Answer × Session MockHost} (hm : (host s).mock = some m) :
    onMock s f = f m := by
  rw [onMock, hm]

theorem course_told {f : Mock → Except Mock.Trouble Mock} (ht : t.told? = some f)
    (hstep : step t s = tell f s) (hm : (host s).mock = some m)
    (hm' : (host (step t s).2).mock = some m') : Course t s m m' := by
  have htell : tell f s = _ := onMock_of_mock hm
  cases hf : f m with
  | ok m'' =>
    rw [hf] at htell
    rw [hstep, htell] at hm'
    cases hm'
    exact .told ht hf (by rw [hstep, htell]; rfl)
  | error e =>
    rw [hf] at htell
    rw [hstep, htell] at hm'
    cases hm.symm.trans hm'
    refine .kept (fun _ => by rw [hstep, htell]; rfl) ?_
    cases t with
    | client action b => cases ht
    | _ => rfl

/-- The mock stays as it is in a step that tells it nothing and calls nothing. -/
theorem course_kept (ht : t.told? = none) (hc : t.isClient = false)
    (h : (host (step t s).2).mock = (host s).mock) (hm : (host s).mock = some m)
    (hm' : (host (step t s).2).mock = some m') : Course t s m m' := by
  cases hm.symm.trans (h.symm.trans hm')
  exact .kept (fun hsome => by rw [ht] at hsome; cases hsome) hc

/-- **A step does one of few things to the mock.** -/
theorem step_course (hs : s.stage.Sound) (hm : (host s).mock = some m)
    (hm' : (host (step t s).2).mock = some m') : Course t s m m' := by
  have hask {f : Mock → Answer} : (host (ask f s).2).mock = (host s).mock := by
    rw [ask, onMock_of_mock hm]
  have hsimulate {slot : Slot} {id : Nat} {dialogue : Hook → Dialogue Answer} :
      (host (simulate slot id dialogue s).2).mock = (host s).mock := by
    rw [simulate, onMock_of_mock hm]
    cases m.hook slot id <;> rfl
  cases t with
  | expectInit id => exact course_told rfl rfl hm hm'
  | expectInitFailure code => exact course_told rfl rfl hm hm'
  | expect id call => exact course_told rfl rfl hm hm'
  | setSignature text code => exact course_told rfl rfl hm hm'
  | setOptions id offers => exact course_told rfl rfl hm hm'
  | simulateTerminate id => exact course_kept rfl rfl hsimulate hm hm'
  | simulateExport id clause => exact course_kept rfl rfl hsimulate hm hm'
  | outstanding => exact course_kept rfl rfl hask hm hm'
  | faults => exact course_kept rfl rfl hask hm hm'
  | verify => exact course_kept rfl rfl hask hm hm'
  | takeFaults =>
    rw [step, onMock_of_mock hm] at hm'
    cases hm'
    exact .cleared rfl
  | dropMock =>
    refine course_kept rfl rfl ?_ hm hm'
    unfold step dropMock at hm' ⊢
    rw [hm] at hm' ⊢
    split_ifs at hm' ⊢
    · cases hm'
    · exact hm
  | newMock =>
    refine course_kept rfl rfl ?_ hm hm'
    unfold step newMock
    split_ifs with hno
    · rfl
    · exact absurd (hm ▸ rfl) hno
  | client action b =>
    let s₁ := setHost { host s with onThread := b } s
    have hs₁ : s₁.stage.Sound := (ByTurns.setHost _ s).sound hs
    have ha := Session.step_answers (N := native) hs₁.keys action
    have hhost : s₁.world.native = ⟨some m, b⟩ := congrArg (MockHost.mk · b) hm
    rw [hhost] at ha
    exact .client rfl ha hm'
  | raw key c b =>
    let s₁ := setHost { host s with onThread := b } s
    have hhost : host s₁ = ⟨some m, b⟩ := congrArg (MockHost.mk · b) hm
    have ha : native.Answers (host s₁) [_] _ :=
      .cons none 0 (c.call ((key.map s₁.handleOf).getD 0)) s₁.world.client (.nil _)
    rw [hhost] at ha
    refine .raw rfl _ _ ha ?_
    rw [← hhost]
    exact hm'

/-- A mock is there after a step that found none only if the step has made it. -/
theorem step_made (hs : s.stage.Sound) (hm : (host s).mock = none)
    (hm' : (host (step t s).2).mock = some m') : t = .newMock ∧ m' = {} := by
  have hnone {f : Mock → Answer × Session MockHost} : onMock s f = (.refused .noMock, s) := by
    rw [onMock, hm]
  have hstays {xs : List Exchange} {host host' : MockHost} (h : native.Answers host xs host')
      (hh : host.mock = none) : host'.mock = none := by
    refine h.keeps (P := fun host => host.mock = none) (fun a x _ n hn => ?_) hh
    show (respond x.call n).Ends _
    rw [respond, hn]
    exact hn
  have hgone {s' : Session MockHost} (h : (host s').mock = none) (h' : (host s').mock = some m') :
      t = .newMock ∧ m' = {} := by
    cases h.symm.trans h'
  cases t with
  | newMock =>
    refine ⟨rfl, ?_⟩
    unfold step newMock at hm'
    rw [hm] at hm'
    cases hm'
    rfl
  | dropMock =>
    refine hgone ?_ hm'
    unfold step dropMock
    rw [hm]
    split_ifs <;> exact hm
  | client action b =>
    let s₁ := setHost { host s with onThread := b } s
    have hs₁ : s₁.stage.Sound := (ByTurns.setHost _ s).sound hs
    exact hgone (hstays (Session.step_answers (N := native) hs₁.keys action) hm) hm'
  | raw key c b =>
    let s₁ := setHost { host s with onThread := b } s
    have ha : native.Answers (host s₁) [_] _ :=
      .cons none 0 (c.call ((key.map s₁.handleOf).getD 0)) s₁.world.client (.nil _)
    have hafter := hstays ha hm
    have hend : (host (step (.raw key c b) s).2).mock = none := hafter
    exact hgone hend hm'
  | _ =>
    refine hgone ?_ hm'
    show (host (onMock s _).2).mock = none
    rw [hnone]
    exact hm

/-- At the beginning there is a mock that knows nothing. -/
theorem start_host (opening : Session.Opening) : host (Session.start opening ({} : MockHost)).2 = {} := by
  obtain ⟨trace, hs, -⟩ := Session.start_stage opening ({} : MockHost)
  exact congrArg (fun st : Stage MockHost => st.world.native) hs

/-! ## Notes -/

section Notes

variable {α : Type} (note : MockStep → Session MockHost → α → α) (fresh : α)

/-- What is noted of steps, each in the session in which it is taken. Without a mock the notes are fresh. -/
def notes : List MockStep → Session MockHost → α → α
  | [], _, a => a
  | t :: ts, s, a =>
    notes ts (step t s).2 (if (host (step t s).2).mock.isSome then note t s a else fresh)

/-- What the mock is, and what has been noted since it was made. -/
structure Noted (Q : Mock → α → Prop) (s : Session MockHost) (a : α) : Prop where
  settled : Settled s
  mock : ∀ m, (host s).mock = some m → Q m a
  fresh : (host s).mock = none → a = fresh

variable {note fresh}

/-- **What each step keeps holds of the mock in the end and what has been noted since it was made.** By
induction on the steps. -/
theorem notes_keep {Q : Mock → α → Prop} (opening : Session.Opening) (steps : List MockStep)
    (hfresh : Q {} fresh) (hnew : ∀ s, note .newMock s fresh = fresh)
    (hstep : ∀ t s a m m', Settled s → (host s).mock = some m → (host (step t s).2).mock = some m' →
      Q m a → Q m' (note t s a)) :
    let s := (Session.start opening {}).2
    ∀ m, (host (after steps s)).mock = some m → Q m (notes note fresh steps s fresh) := by
  suffices h : ∀ s a, Noted fresh Q s a →
      Noted fresh Q (after steps s) (notes note fresh steps s a) by
    refine (h _ fresh ⟨settled_start opening, fun m hm => ?_, fun _ => rfl⟩).mock
    cases (congrArg MockHost.mock (start_host opening)).symm.trans hm
    exact hfresh
  induction steps with
  | nil => exact fun _ _ h => h
  | cons t ts ih =>
    refine fun s a h => ih _ _ ⟨h.settled.step t, fun m' hm' => ?_, fun hnone => ?_⟩
    · rw [hm', Option.isSome_some, if_pos rfl]
      cases hm : (host s).mock with
      | some m => exact hstep t s a m m' h.settled hm hm' (h.mock m hm)
      | none =>
        obtain ⟨rfl, rfl⟩ := step_made h.settled.sound hm hm'
        rw [h.fresh hm, hnew]
        exact hfresh
    · rw [hnone, Option.isSome_none, if_neg Bool.false_ne_true]

end Notes

end MockSession
end SatClient
