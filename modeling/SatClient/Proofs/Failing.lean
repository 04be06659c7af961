import SatClient.Proofs.Codes
import SatClient.Proofs.Discovery
import SatClient.Proofs.Resumption
import SatClient.Session.Trace

/-!
# How steps fail

What a client is told of its steps is what the native calls in them come to. Only a failed look for
options is told of more than once, and only a panic that a closure has left comes before a code. The
code of a release that nobody waits for goes to the log.

* `Answer.stop?`: why a step has stopped
* `Passage.calls`, `Passage.dropCalls`: the native calls of the operation of a turn, and the releases of
  solvers that are dropped in it
* `Session.step_told`: a step tells of the codes of its calls
* **`codes_told`**: what the client is told of codes, over all turns
-/

namespace SatClient

variable {σ α : Type} {N : Native σ} {es : List EntryPoint}

/-- Why a step has stopped, if it has. -/
def Answer.stop? : Answer → Option Stop
  | stopped e => some e
  | configured _ result => stopOf? result
  | loaded (.error e) => some (.failure e)
  | _ => none

theorem Answer.stop?_ofResult (f : α → Value) (r : Except Stop α) :
    (Answer.ofResult f r).stop? = stopOf? r := by
  cases r <;> rfl

theorem Answer.panic?_of_stop? {a : Answer} {q : Payload} (h : a.stop? = some (.panic q)) :
    a.panic? = some q := by
  cases a with
  | stopped e =>
    cases h
    rfl
  | configured _ r =>
    cases r <;> cases h
    rfl
  | loaded r => cases r <;> cases h
  | _ => cases h

/-- Whether a native call in a turn is the release of a solver that is dropped. -/
def Turn.ofDrop (t : Turn σ) (x : Exchange) : Bool :=
  match t with
  | .client (.release _) => false
  | _ => x.call.entry = .release

theorem Turn.ofDrop_of_entry {action : Step} {x : Exchange} (hc : ∀ key, action ≠ .create key)
    (hd : ∀ key, action ≠ .drop key) (he : x.call.entry ∈ action.entries) :
    (Turn.client action : Turn σ).ofDrop x = false := by
  cases action with
  | create key => exact absurd rfl (hc key)
  | drop key => exact absurd rfl (hd key)
  | release key => rfl
  | _ =>
    refine decide_eq_false fun hr => ?_
    rw [hr] at he
    simp [Step.entries] at he

/-- The native calls of the operation of a turn. -/
def Passage.calls (p : Passage σ) : List Exchange :=
  (exchanges p.events).filter fun x => !p.turn.ofDrop x

/-- The failure of the look for the options that are needed in a turn. -/
def Passage.Recalls (p : Passage σ) (e : Failure) : Prop :=
  ∃ x key y, p.seeker? = some x ∧ p.after.solvers.get? key = some y ∧ y.identity = x.identity ∧
    y.options = some (.error e)

/-- The releases of solvers that are dropped in a turn: one that the client drops, and one in whose place
another is kept. -/
def Passage.dropCalls (p : Passage σ) : List Exchange := (exchanges p.events).filter p.turn.ofDrop

/-- The log is told of each of these releases as soon as it has returned. -/
def Passage.LogsDrops (p : Passage σ) : Prop :=
  ∀ x ∈ p.dropCalls, ∃ before after, p.events =
    before ++ .returned x.owner x.call x.reply :: .notice (.dropped x.reply.code) :: after

namespace Session

variable {s : Session σ} {key : Int} {action : Step} {recalls : Failure → Prop}

/-! ## Steps -/

/-- A step tells of the codes of its calls. -/
def Told (recalls : Failure → Prop) (s : Session σ) (r : Answer × Session σ) : Prop :=
  ∃ xs, exchanges r.2.trace = exchanges s.trace ++ xs ∧ Tells recalls xs r.1.stop?

theorem told_idle {s' : Session σ} {a : Answer} (ha : a.stop? = none)
    (h : exchanges s'.trace = exchanges s.trace) : Told recalls s (a, s') :=
  ⟨[], h.trans (List.append_nil _).symm, .silent fun f c hf => by rw [ha] at hf; cases hf⟩

theorem told_runOn {x : Act (Focus σ) α} (hx : Solver.Tell x) {answer : Except Stop α → Answer}
    (ha : ∀ r, (answer r).stop? = stopOf? r) (s : Session σ) :
    Told recalls s (s.runOn key x answer) := by
  cases hk : s.solvers.get? key with
  | none =>
    rw [runOn, onSolver, hk]
    exact told_idle rfl rfl
  | some solver =>
    obtain ⟨xs, ht, hxs⟩ := hx ⟨solver, s.world⟩
    rw [runOn_of_get? hk]
    refine ⟨xs, ht, ?_⟩
    rw [ha]
    exact hxs.mono fun _ => False.elim

/-- A step that needs the options of a solver. -/
theorem told_seeking {x : Act (Focus σ) α} {answer : Except Stop α → Answer} (hx : Solver.Retell x)
    (hm : ∀ f, Solver.Moves N es f (x f).2) (ha : ∀ r, (answer r).stop? = stopOf? r)
    (hn : s.needs? action = some key)
    (hs : (s.step N action).2.solvers = (s.runOn key x answer).2.solvers) :
    Told (s.passage N (.client action)).Recalls s (s.runOn key x answer) := by
  cases hk : s.solvers.get? key with
  | none =>
    rw [runOn, onSolver, hk]
    exact told_idle rfl rfl
  | some solver =>
    obtain ⟨xs, ht, hxs⟩ := hx ⟨solver, s.world⟩
    rw [runOn_of_get? hk] at hs ⊢
    refine ⟨xs, ht, ?_⟩
    rw [ha]
    have hseeker : (s.passage N (.client action)).seeker? = some solver := by
      show (s.needs? action).bind s.solvers.get? = _
      rw [hn]
      exact hk
    refine hxs.mono fun e he =>
      ⟨solver, key, _, hseeker, ?_, (hm ⟨solver, s.world⟩).solver_eq.1, he⟩
    show (s.step N action).2.solvers.get? key = _
    rw [hs]
    exact Keyed.get?_set_self _ _ _

theorem told_signature (s : Session σ) : Told recalls s (s.step N .signature) := by
  simp only [step, onInterface]
  cases s.interface? with
  | none => exact told_idle rfl rfl
  | some l =>
    have ht := World.call_exchanges (N := N) none (l.symbols .signature) .signature s.world
    dsimp only
    rw [signature_apply]
    dsimp only
    split_ifs with hok
    · refine ⟨[_], ht, .answered hok fun f c h => ?_⟩
      cases hr : (s.world.call N none (l.symbols .signature) .signature).1.text <;>
        rw [hr] at h <;> cases h
    · exact ⟨[_], (exchanges_note rfl).trans ht, .denied hok⟩

theorem told_getOption (key : Int) (name : String) (keep : Option String) (s : Session σ) :
    Told (s.passage N (.client (.getOption key name keep))).Recalls s (s.getOption N key name keep) := by
  obtain ⟨ha, hs⟩ :
      (s.getOption N key name keep).1 = _ ∧ (s.getOption N key name keep).2.stage = _ :=
    getOption_kept name keep
  have h : Told (s.passage N (.client (.getOption key name keep))).Recalls s
      (s.runOn key (Solver.getOption N name) (.ofResult .option)) :=
    told_seeking (Solver.retell_getOption name) (Solver.moves_getOption name) (Answer.stop?_ofResult _)
      rfl (congrArg Stage.solvers hs)
  obtain ⟨xs, ht, hxs⟩ := h
  refine ⟨xs, ?_, ha ▸ hxs⟩
  exact (congrArg (fun st => exchanges st.world.client.trace) hs).trans ht

theorem told_setOption (key : Int) (option : String) (value index : Int64) (s : Session σ) :
    Told (s.passage N (.client (.setOption key option value index))).Recalls s
      (s.step N (.setOption key option value index)) := by
  cases hk : s.solvers.get? key with
  | none =>
    simp only [step, setOption, onSolver, hk]
    exact told_idle rfl rfl
  | some solver =>
    cases ho : s.option? option with
    | none =>
      simp only [step, setOption, onSolver, hk, ho]
      exact told_idle rfl rfl
    | some o =>
      have hs : s.step N (.setOption key option value index) =
          s.runOn key (Solver.setOption N o value index) .ofUnit := by
        simp only [step, setOption, onSolver, hk, ho]
      have hn : s.needs? (.setOption key option value index) = some key := by
        rw [needs?, ho]
        rfl
      have h := told_seeking (Solver.retell_setOption (N := N) o value index)
        (Solver.moves_setOption o value index) (Answer.stop?_ofResult _) hn (congrArg (·.2.solvers) hs)
      rw [hs]
      exact h

/-- Without a setting the options are not needed. -/
theorem told_configure (key : Int) (texts : List String) (s : Session σ) :
    Told (s.passage N (.client (.configure key texts))).Recalls s (s.step N (.configure key texts)) := by
  cases hk : s.solvers.get? key with
  | none =>
    simp only [step, configure, onSolver, hk]
    exact told_idle rfl rfl
  | some solver =>
    cases ht : texts.mapM Setting.read with
    | error m =>
      simp only [step, configure, onSolver, hk, ht]
      exact told_idle rfl rfl
    | ok settings =>
      have hs : s.step N (.configure key texts) =
          s.runOn key (Solver.configure N settings) (.configured settings) := by
        simp only [step, configure, onSolver, hk, ht]
      rw [hs]
      cases settings with
      | nil =>
        have hx : Solver.Tell (Solver.configure N []) :=
          fun f => Solver.tells_quiet rfl fun g c h => by cases h
        exact told_runOn hx (fun _ => rfl) s
      | cons first rest =>
        have hn : s.needs? (.configure key texts) = some key := by
          rw [needs?, ht]
        exact told_seeking (Solver.retell_configure (first :: rest))
          (Solver.moves_configure (first :: rest)) (fun _ => rfl) hn (congrArg (·.2.solvers) hs)

/-! ## Loads -/

theorem resolveAll_error {ρ : Type} {R : Resolver ρ} {path : String} {fs : List EntryPoint}
    {symbols : Symbols} {r : ρ} {e : Failure}
    (h : (Symbols.resolveAll R path fs symbols r).1 = .error e) : ∃ a, e = .notLoaded path a := by
  induction fs generalizing symbols r with
  | nil => cases h
  | cons f rest ih =>
    rcases ha : R.ask f.name r with ⟨answer, r'⟩
    simp only [Symbols.resolveAll, ha] at h
    cases hf : foundAddress f.name answer with
    | error reason =>
      rw [hf] at h
      cases h
      exact ⟨reason, rfl⟩
    | ok address =>
      rw [hf] at h
      exact ih h

/-- A load makes no native call, and tells of no code. -/
theorem start_stop? (opening : Opening) (native : σ) (f : String) (c : Code) :
    (start opening native).1.stop? ≠ some (.failure (.callFailed f c)) := by
  intro h
  cases opening with
  | known => cases h
  | resolved path keeps answer =>
    rcases hr : Symbols.resolve (answering answer) path () with ⟨e | symbols, events, r⟩ <;>
      simp only [start, load, hr] at h
    · obtain ⟨a, rfl⟩ := resolveAll_error (congrArg Prod.fst hr)
      cases h
    · cases h

/-! ## Ends of solvers -/

theorem leave_notes (s : Session σ) :
    ∃ notes, s.leave.trace = s.trace ++ notes ∧ ∀ e ∈ notes, e.IsNote := by
  unfold leave
  cases s.library with
  | none => exact ⟨[], (List.append_nil _).symm, by simp⟩
  | some l =>
    dsimp only
    split_ifs
    · exact ⟨[], (List.append_nil _).symm, by simp⟩
    · exact ⟨[.unloaded], rfl, by simp [Event.IsNote]⟩

theorem leave_exchanges (s : Session σ) : exchanges s.leave.trace = exchanges s.trace := by
  obtain ⟨notes, ht, hn⟩ := leave_notes s
  rw [ht, exchanges_append, exchanges_of_isNote hn, List.append_nil]

/-- When a solver ends, its native solver has been asked to go. -/
theorem ended_exchanges {f : Focus σ} {c : Call} {events : List Event}
    (ht : ∀ e ∈ events, ∃ n, e = .notice n) :
    exchanges (Solver.close ((f.call N c).2.note events)).client.trace =
      exchanges f.world.client.trace ++ [f.exchange N c] := by
  obtain ⟨notes, hnotes, hn⟩ := Solver.close_noted_trace (f.call N c).2 ht
  rw [hnotes, exchanges_note (exchanges_of_isNote hn), Focus.call_exchanges]

theorem afterEnd_exchanges (key : Int) (w : World σ) (s : Session σ) :
    exchanges (s.afterEnd key w).trace = exchanges w.client.trace := leave_exchanges _

theorem told_release (key : Int) (s : Session σ) : Told recalls s (s.releaseSolver N key) := by
  unfold releaseSolver onSolver
  cases hk : s.solvers.get? key with
  | none => exact told_idle rfl rfl
  | some solver =>
    let f : Focus σ := ⟨solver, s.world⟩
    refine ⟨[f.exchange N (.release solver.handle)], ?_, ?_⟩ <;> dsimp only
    · rw [afterEnd_exchanges, release_apply]
      dsimp only
      split_ifs <;> exact ended_exchanges (by simp)
    · rw [release_apply]
      dsimp only
      split_ifs with hok
      · exact .done hok
      · exact .denied hok

/-! ## Every step -/

/-- **A step tells of the codes of its calls**, but for those which begin or drop a solver. -/
theorem step_told (s : Session σ) (hc : ∀ key, action ≠ .create key) (hd : ∀ key, action ≠ .drop key) :
    Told (s.passage N (.client action)).Recalls s (s.step N action) := by
  cases action with
  | create key => exact absurd rfl (hc key)
  | drop key => exact absurd rfl (hd key)
  | signature => exact told_signature s
  | origin =>
    simp only [step, onInterface]
    cases s.interface? <;> exact told_idle rfl rfl
  | cloneInterface =>
    simp only [step, onInterface]
    cases s.interface? <;> exact told_idle rfl rfl
  | dropInterface =>
    refine told_idle rfl ?_
    unfold dropInterface
    split_ifs
    · rfl
    · exact leave_exchanges s
  | countKeepers => exact told_idle rfl rfl
  | optionsEqual a b =>
    refine told_idle ?_ rfl
    rw [optionsEqual]
    split <;> rfl
  | add key lits redundancy =>
    refine told_runOn ?_ (Answer.stop?_ofResult _) s
    cases lits <;> exact Solver.tell_addClause _ redundancy
  | assume key lits =>
    refine told_runOn ?_ (Answer.stop?_ofResult _) s
    cases lits <;> exact Solver.tell_solveUnder _
  | solve key => exact told_runOn (Solver.tell_solveUnder _) (Answer.stop?_ofResult _) s
  | val key lit =>
    refine told_runOn ?_ (Answer.stop?_ofResult _) s
    cases lit <;> exact Solver.tell_litValue _
  | failed key lit =>
    refine told_runOn ?_ (Answer.stop?_ofResult _) s
    cases lit <;> exact Solver.tell_assumptionFailed _
  | setTerminate key closure =>
    exact told_runOn (Solver.tell_setTerminate closure) (Answer.stop?_ofResult _) s
  | setExport key listener maxLength =>
    exact told_runOn (Solver.tell_setExport listener maxLength) (Answer.stop?_ofResult _) s
  | clearTerminate key => exact told_runOn Solver.tell_clearTerminate (Answer.stop?_ofResult _) s
  | clearExport key => exact told_runOn Solver.tell_clearExport (Answer.stop?_ofResult _) s
  | getOptions key =>
    exact told_seeking Solver.retell_getOptions Solver.moves_getOptions (Answer.stop?_ofResult _) rfl rfl
  | getOption key name keep => exact told_getOption key name keep s
  | hasOption key name =>
    exact told_seeking (Solver.retell_hasOption name) (Solver.moves_hasOption name)
      (Answer.stop?_ofResult _) rfl rfl
  | setByName key name value index =>
    exact told_seeking (Solver.retell_setByName name value index)
      (Solver.moves_setByName name value index) (Answer.stop?_ofResult _) rfl rfl
  | setOption key option value index => exact told_setOption key option value index s
  | configure key texts => exact told_configure key texts s
  | release key => exact told_release key s

/-! ## Solvers that are dropped -/

/-- Each native call in the events is followed by the notice that a solver was dropped, with its code. -/
def Remarked (events : List Event) : Prop :=
  ∀ x ∈ exchanges events, x.call.entry = .release ∧ ∃ before after, events =
    before ++ .returned x.owner x.call x.reply :: .notice (.dropped x.reply.code) :: after

theorem remarked_nil : Remarked [] := fun _ hx => absurd hx List.not_mem_nil

/-- The release of a solver that is dropped is told to the log as soon as it has returned. -/
theorem dropSolver_remarked (key : Int) (s : Session σ) :
    ∃ events, (s.dropSolver N key).trace = s.trace ++ events ∧ Remarked events := by
  unfold dropSolver
  cases hk : s.solvers.get? key with
  | none => exact ⟨[], (List.append_nil _).symm, remarked_nil⟩
  | some solver =>
    let f : Focus σ := ⟨solver, s.world⟩
    let c : Call := .release solver.handle
    let called := f.call N c
    let told : Event := .notice (.dropped called.1.code)
    obtain ⟨visits, hcall, hv⟩ :=
      World.call_events N (some solver.identity) (solver.symbols c.entry) c s.world
    obtain ⟨back, hclose, hback⟩ := Solver.close_trace (called.2.note [told])
    let ended : Session σ :=
      { s with world := Solver.close (called.2.note [told]), solvers := s.solvers.erase key }
    obtain ⟨notes, hleave, hnotes⟩ := leave_notes ended
    let before : List Event := .called (some solver.identity) (solver.symbols c.entry) c :: visits
    let after : List Event := back ++ notes
    have hcall : called.2.world.client.trace =
        s.trace ++ (before ++ [.returned (some solver.identity) c called.1]) := hcall
    have hended : ended.trace = called.2.world.client.trace ++ [told] ++ back := hclose
    refine ⟨before ++ .returned (some solver.identity) c called.1 :: told :: after, ?_, ?_⟩
    · show ended.leave.trace = _
      rw [hleave, hended, hcall]
      simp [after]
    · have hbefore : exchanges before = [] :=
        (exchanges_of_isNote fun e he => (hv e he).isNote : exchanges visits = [])
      have hafter : exchanges after = [] := exchanges_of_isNote fun e he =>
        (List.mem_append.mp he).elim (fun he => (hback e he).isNote) (hnotes e)
      intro x hx
      rw [exchanges_append, hbefore, List.nil_append] at hx
      have hx : x ∈ ⟨some solver.identity, c, called.1⟩ :: exchanges after := hx
      rw [hafter, List.mem_singleton] at hx
      subst hx
      exact ⟨rfl, before, after, rfl⟩

/-- What happens in a step: first the calls of its operation, and then what comes of dropping a solver. -/
def Split (recalls : Failure → Prop) (s : Session σ) (r : Answer × Session σ) : Prop :=
  ∃ made dropped, r.2.trace = s.trace ++ (made ++ dropped) ∧
    Tells recalls (exchanges made) r.1.stop? ∧ (∀ x ∈ exchanges made, x.call.entry ≠ .release) ∧
    Remarked dropped

theorem split_drop (key : Int) (s : Session σ) : Split recalls s (s.step N (.drop key)) := by
  obtain ⟨events, ht, he⟩ := dropSolver_remarked (N := N) key s
  simp only [step, onSolver]
  cases hk : s.solvers.get? key with
  | none => exact ⟨[], [], (List.append_nil _).symm, .nothing, by simp [exchanges], remarked_nil⟩
  | some solver => exact ⟨[], events, ht, .nothing, by simp [exchanges], he⟩

theorem split_create (key : Int) (s : Session σ) : Split recalls s (s.create N key) := by
  unfold create onInterface
  cases s.interface? with
  | none => exact ⟨[], [], (List.append_nil _).symm, .nothing, by simp [exchanges], remarked_nil⟩
  | some l =>
    let called := s.world.call N none (l.symbols .init) .init
    let x : Exchange := ⟨none, .init, called.1⟩
    obtain ⟨visits, hcall, hv⟩ := World.call_events N none (l.symbols .init) .init s.world
    let begun : List Event := [.called none (l.symbols .init) .init] ++ visits ++
      [.returned none .init called.1]
    have hcall : called.2.client.trace = s.trace ++ begun := hcall
    have hbegun (rest : List Event) (hr : exchanges rest = []) : exchanges (begun ++ rest) = [x] := by
      have hvisits : exchanges visits = [] := exchanges_of_isNote fun e he => (hv e he).isNote
      simp only [begun, exchanges_append, hvisits, hr]
      rfl
    have hinit : ∀ y ∈ [x], y.call.entry ≠ .release := by simp [x, Call.entry]
    dsimp only
    rw [create_apply]
    dsimp only
    split_ifs with hok
    · let w := (called.2.note [.notice .created]).opened called.1.handle
      let shared : Session σ := { s with world := w, library := some l.share }
      obtain ⟨dropped, hd, hr⟩ := dropSolver_remarked (N := N) key shared
      let made := begun ++ [.notice .created, .opened called.2.nextIdentity called.1.handle]
      have hmade : exchanges made = [x] := hbegun _ rfl
      have hw : shared.trace = s.trace ++ made := by
        show called.2.client.trace ++ [_] ++ [_] = _
        rw [hcall]
        simp [made]
        rfl
      refine ⟨made, dropped, ?_, ?_, hmade ▸ hinit, hr⟩
      · rw [← List.append_assoc, ← hw]
        exact hd
      · rw [hmade]
        exact .done hok
    · let made := begun ++ [.notice (.returned .init called.1.code)]
      have hmade : exchanges made = [x] := hbegun _ rfl
      refine ⟨made, [], ?_, ?_, hmade ▸ hinit, remarked_nil⟩
      · show called.2.client.trace ++ [_] = _
        rw [hcall]
        simp [made]
        rfl
      · rw [hmade]
        exact .denied hok

/-! ## Turns -/

/-- A turn that drops no solver. -/
theorem told_passage {t : Turn σ} (hs : s.solvers.keys.Nodup) (h : Told recalls s (s.turn N t))
    (hd : ∀ x ∈ exchanges (s.passage N t).events, t.ofDrop x = false) :
    Tells recalls (s.passage N t).calls (s.passage N t).answer.stop? ∧ (s.passage N t).dropCalls = [] := by
  obtain ⟨xs, ht, hxs⟩ := h
  have hev : exchanges (s.passage N t).events = xs :=
    List.append_cancel_left ((exchanges_passage hs t).symm.trans ht)
  have hcalls : (s.passage N t).calls = xs := by
    rw [← hev]
    exact List.filter_eq_self.mpr fun x hx => by rw [Bool.not_eq_true']; exact hd x hx
  refine ⟨hcalls ▸ hxs, List.filter_eq_nil_iff.mpr fun x hx => ?_⟩
  exact Bool.not_eq_true _ ▸ hd x hx

/-- A turn in which a solver may be dropped. -/
theorem split_passage (h : Split recalls s (s.step N action))
    (hd : ∀ x, (Turn.client action : Turn σ).ofDrop x = decide (x.call.entry = .release)) :
    let p := s.passage N (.client action)
    Tells recalls p.calls p.answer.stop? ∧ p.LogsDrops := by
  intro p
  obtain ⟨made, dropped, ht, hmade, hlive, hr⟩ := h
  have hev : p.events = made ++ dropped := passage_events ht
  have hcalls : p.calls = exchanges made := by
    rw [Passage.calls, hev, exchanges_append, List.filter_append]
    rw [List.filter_eq_self.mpr, List.filter_eq_nil_iff.mpr, List.append_nil]
    · intro x hx
      simp [p, passage, hd, (hr x hx).1]
    · intro x hx
      simp [p, passage, hd, hlive x hx]
  have hdropped : p.dropCalls = exchanges dropped := by
    rw [Passage.dropCalls, hev, exchanges_append, List.filter_append]
    rw [List.filter_eq_nil_iff.mpr, List.filter_eq_self.mpr, List.nil_append]
    · intro x hx
      simp [p, passage, hd, (hr x hx).1]
    · intro x hx
      simp [p, passage, hd, hlive x hx]
  refine ⟨hcalls ▸ hmade, fun x hx => ?_⟩
  rw [hdropped] at hx
  obtain ⟨-, before, after, he⟩ := hr x hx
  exact ⟨made ++ before, after, by rw [hev, he, List.append_assoc]⟩

/-- What a turn comes to: its operation tells of the codes of its calls, and what else is released is
told to the log. -/
theorem passage_told (hs : s.solvers.keys.Nodup) (t : Turn σ) :
    let p := s.passage N t
    Tells p.Recalls p.calls p.answer.stop? ∧ p.LogsDrops := by
  intro p
  have hentry : ∀ x ∈ exchanges p.events, x.call.entry ∈ t.entries :=
    entry_mem_of_allowed (turn_grows hs t).2
  have hquiet (h : Told p.Recalls s (s.turn N t)) (hd : ∀ x ∈ exchanges p.events, t.ofDrop x = false) :
      Tells p.Recalls p.calls p.answer.stop? ∧ p.LogsDrops := by
    obtain ⟨htells, hdropped⟩ := told_passage hs h hd
    refine ⟨htells, fun x hx => ?_⟩
    rw [show p.dropCalls = [] from hdropped] at hx
    cases hx
  cases t with
  | native d =>
    obtain ⟨events, ht, hv⟩ := (d.run_visits s.world.client).events
    have hn : exchanges events = [] := exchanges_of_isNote fun e he => (hv e he).isNote
    refine hquiet (told_idle rfl ?_) fun x hx => absurd (hentry x hx) List.not_mem_nil
    exact (congrArg exchanges ht).trans (exchanges_note hn)
  | client action =>
    by_cases hc : ∃ key, action = .create key
    · obtain ⟨key, rfl⟩ := hc
      exact split_passage (split_create key s) fun _ => rfl
    by_cases hd : ∃ key, action = .drop key
    · obtain ⟨key, rfl⟩ := hd
      exact split_passage (split_drop key s) fun _ => rfl
    exact hquiet (step_told s (not_exists.mp hc) (not_exists.mp hd)) fun x hx =>
      Turn.ofDrop_of_entry (not_exists.mp hc) (not_exists.mp hd) (hentry x hx)

/-- The failure that is told again is that of the one look for options. -/
theorem recalled_look (hs : s.stage.Sound) (hi : s.stage.Informed) {t : Turn σ} {e : Failure}
    (h : (s.passage N t).Recalls e) :
    ∃ x reply, (s.passage N t).seeker? = some x ∧
      looks x.identity (exchanges (s.passage N t).after.trace) = [reply] ∧ ¬ reply.code.isOk ∧
      e = .callFailed EntryPoint.options.name reply.code := by
  obtain ⟨x, key, y, hx, hk, hid, he⟩ := h
  obtain ⟨hi', -, reply, -, hlook⟩ := seeking_turn hs hi hx
  have hknown := hi'.known y (.inl ⟨key, hk⟩)
  rw [he, hid] at hknown
  have hfound : some (.error e) = some (reply.found x.identity) :=
    hknown.trans (congrArg (fun l => l.head?.map (Reply.found x.identity)) hlook)
  rw [Reply.found] at hfound
  split_ifs at hfound with hok
  · cases hfound
  · exact ⟨x, reply, hx, hlook, hok, Except.error.inj (Option.some.inj hfound)⟩

end Session

/-- What the log says of a solver that is dropped and not released with success. -/
theorem Notice.line_dropped {c : Code} (h : ¬ c.isOk) :
    (Notice.dropped c).line = "WARN solver: " ++ ("Release of solver " ++ place ++ " failed with " ++ c.text) := by
  have hlevel : (Notice.dropped c).level = .warn := if_neg h
  have hmessage : (Notice.dropped c).message = "Release of solver " ++ place ++ " failed with " ++ c.text :=
    if_neg h
  rw [line, hlevel, hmessage]
  rfl

/-- **What the client is told of the codes of native calls.** An operation that succeeds has made none
without success; one that fails with a code has got it in its last call, or in the one look for the
options of its solver; and a call without success is the last of its operation, which fails with its code
unless a panic goes on in it. The code of a release that comes of a drop is told to the log. A load makes
no call, and tells of no code. -/
theorem codes_told (N : Native σ) (opening : Session.Opening) (native : σ) (turns : List (Turn σ))
    (t : Turn σ) :
    let start := (Session.start opening native).2
    let s := start.after N turns
    let p := s.passage N t
    (exchanges start.trace = [] ∧ ∀ f c,
        (Session.start opening native).1.stop? ≠ some (.failure (.callFailed f c))) ∧
      (s.finish N = s.after N s.farewell ∧
        callsMade p.events = (exchanges p.events).map fun x => (x.owner, x.call)) ∧
      (p.answer.stop? = none → ∀ x ∈ p.calls, x.Succeeds) ∧
      (∀ f c, p.answer.stop? = some (.failure (.callFailed f c)) → ¬ c.isOk ∧
        ((∃ x, p.calls.getLast? = some x ∧ f = x.call.entry.name ∧ c = x.reply.code) ∨
          f = EntryPoint.options.name ∧ ∃ x reply, p.seeker? = some x ∧
            looks x.identity (exchanges p.after.trace) = [reply] ∧ c = reply.code)) ∧
      (∀ v, p.answer.stop? = some (.failure (.violation v)) → ∀ x ∈ p.calls, x.Succeeds) ∧
      (∀ x ∈ p.calls, ¬ x.Succeeds →
        (∃ earlier, p.calls = earlier ++ [x] ∧ ∀ y ∈ earlier, y.Succeeds) ∧
          (p.answer.stop? = some (.failure (.callFailed x.call.entry.name x.reply.code)) ∨
            ∃ i q, p.resumed? i = some q)) ∧
      ∀ x ∈ p.dropCalls, (∃ before after, p.events =
          before ++ .returned x.owner x.call x.reply :: .notice (.dropped x.reply.code) :: after) ∧
        (¬ x.Succeeds → (Notice.dropped x.reply.code).line =
          "WARN solver: " ++ ("Release of solver " ++ Notice.place ++ " failed with " ++ x.reply.code.text)) := by
  intro start s p
  have hs : s.stage.Sound := Session.sound_after (Session.sound_start opening native) turns
  have hi : s.stage.Informed := Session.informed_after (Session.sound_start opening native)
    (Session.informed_start opening native) turns
  obtain ⟨htells, hdropped⟩ := Session.passage_told (N := N) hs.keys t
  have hcalls : callsMade p.events = (exchanges p.events).map fun x => (x.owner, x.call) := by
    rw [(Session.turn_grows hs.keys t).1, callsReturned_eq]
  refine ⟨⟨Session.exchanges_start opening native, Session.start_stop? opening native⟩,
    ⟨Session.finish_eq s, hcalls⟩, ?_, ?_, ?_, ?_,
    fun x hx => ⟨hdropped x hx, fun hno => Notice.line_dropped hno⟩⟩
  · intro h
    rw [h] at htells
    exact htells.succeeds
  · intro f c h
    rw [h] at htells
    rcases htells.failed with ⟨x, hx, hno, hfail⟩ | hrecalls
    · obtain ⟨rfl, rfl⟩ := Failure.callFailed.inj hfail
      exact ⟨hno, .inl ⟨x, hx, rfl, rfl⟩⟩
    · obtain ⟨x, reply, hseeker, hlook, hno, he⟩ := Session.recalled_look hs hi hrecalls
      obtain ⟨rfl, rfl⟩ := Failure.callFailed.inj he
      exact ⟨hno, .inr ⟨rfl, x, reply, hseeker, hlook, rfl⟩⟩
  · intro v h
    rw [h] at htells
    exact htells.violated
  · intro x hx hno
    obtain ⟨hlast, hstop⟩ := htells.last hx hno
    refine ⟨hlast, hstop.imp_right ?_⟩
    rintro ⟨q, hq⟩
    rcases Session.passage_panic t (Answer.panic?_of_stop? hq) with ⟨i, hr⟩ | hnil
    · exact ⟨i, q, hr⟩
    · have hev : x ∈ exchanges p.events := List.mem_of_mem_filter hx
      rw [show p.events = [] from hnil] at hev
      cases hev

/-- A solver is made in the place of another, which cannot be released. -/
example : ∃ p : Passage Scripted,
    p = ((Session.start .known
        { script := fun e => if e = .release then [{ code := ⟨7⟩ }] else [] }).2.after Scripted.native
          [.client (.create 0)]).passage Scripted.native (.client (.create 0)) ∧
      p.answer = .done (.created false) ∧ p.calls.map (·.call.entry) = [.init] ∧
      p.dropCalls.map (·.reply.code) = [⟨7⟩] ∧
      lines p.events = ["DEBUG solver: Created solver 0x*",
        "WARN solver: Release of solver 0x* failed with IPASIR2_E_INVALID_OPTION_VALUE (7)"] :=
  ⟨_, rfl, rfl, rfl, rfl, rfl⟩

end SatClient
