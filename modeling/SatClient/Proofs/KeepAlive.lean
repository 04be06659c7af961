import SatClient.Constant
import SatClient.Proofs.Roster

/-!
# What is kept alive

The interfaces and the solvers of a client share the library. It goes with the last of them, and with
it what the client gave to be kept alive.

* `Session.users`: those who share the library
* `Session.Lodged`: the library counts its users, and is there as long as it has one
* `Undisturbed`: the library does not go meanwhile
* `Session.Tends`, **`Session.turn_tends`**: a turn leaves the library in order; it goes as the last thing
  that happens in the turn
* `Step.concernsUsers`, `Session.quiet_step`: few steps have to do with who uses the library
* `Session.Sheltered`, `Session.Safe`: no native function is called once the library has gone
* **`Session.kept_while_used`**: what is to be kept alive is kept once while anyone uses the library, and
  not afterwards; no native function is called without it
-/

namespace SatClient

open Relation

variable {σ α : Type} {N : Native σ} {es : List EntryPoint}

/-! ## Meanwhile -/

/-- More has happened, but not that the library has gone. -/
def Undisturbed (t t' : List Event) : Prop := ∃ events, t' = t ++ events ∧ .unloaded ∉ events

namespace Undisturbed

variable {t t' t'' : List Event}

theorem refl (t : List Event) : Undisturbed t t := ⟨[], by simp, by simp⟩

theorem trans (h : Undisturbed t t') (h' : Undisturbed t' t'') : Undisturbed t t'' := by
  obtain ⟨events, rfl, hn⟩ := h
  obtain ⟨events', rfl, hn'⟩ := h'
  exact ⟨events ++ events', List.append_assoc _ _ _, by simp [hn, hn']⟩

theorem note (t : List Event) {events : List Event} (h : .unloaded ∉ events) :
    Undisturbed t (t ++ events) := ⟨events, rfl, h⟩

end Undisturbed

theorem Client.Visits.undisturbed {c c' : Client} (h : Client.Visits c c') :
    Undisturbed c.trace c'.trace := by
  obtain ⟨events, ht, hv⟩ := h.events
  rw [ht]
  refine .note _ fun hm => ?_
  cases hv _ hm

theorem World.call_undisturbed (owner : Option Nat) (a : Address) (c : Call) (w : World σ) :
    Undisturbed w.client.trace (w.call N owner a c).2.client.trace := by
  obtain ⟨events, ht, hv⟩ := World.call_events N owner a c w
  refine ⟨_, ht, fun hm => ?_⟩
  simp only [List.append_assoc, List.mem_append, List.mem_singleton, reduceCtorEq, false_or,
    or_false] at hm
  cases hv _ hm

theorem Event.GivesBack.ne_unloaded {i : Nat} {e : Event} (h : e.GivesBack i) : e ≠ .unloaded := by
  cases h <;> nofun

theorem Solver.Move.undisturbed {f f' : Focus σ} (h : Solver.Move N es f f') :
    Undisturbed f.world.client.trace f'.world.client.trace := by
  have hdrop (slot : Slot) : .unloaded ∉ f.bridge.dropEvents f.solver.identity slot :=
    fun hm => (f.bridge.dropEvents_givesBack _ slot _ hm).ne_unloaded rfl
  cases h with
  | tell n => exact .note _ (by simp)
  | buffer buffer => exact .refl _
  | options he => exact .refl _
  | call he hc => exact World.call_undisturbed _ _ _ _
  | resume he hp => exact .note _ (by simp)
  | take he => exact .note _ (by simp)
  | drop he => exact .note _ (by simp)
  | settleTerminate he => exact .note _ (hdrop .terminate)
  | settleExporter he => exact .note _ (hdrop .exporter)

theorem Solver.Moves.undisturbed {f f' : Focus σ} (h : Solver.Moves N es f f') :
    Undisturbed f.world.client.trace f'.world.client.trace := by
  induction h with
  | refl => exact .refl _
  | tail _ hm ih => exact ih.trans hm.undisturbed

/-- When a solver ends, the library stays to the last. -/
theorem Solver.ended_undisturbed (f : Focus σ) (c : Call) {events : List Event}
    (ht : ∀ e ∈ events, ∃ n, e = .notice n) :
    Undisturbed f.world.client.trace (close ((f.call N c).2.note events)).client.trace := by
  have hc : Undisturbed f.world.client.trace (f.call N c).2.world.client.trace :=
    World.call_undisturbed _ _ _ _
  obtain ⟨rest, hrest, hback⟩ := close_trace ((f.call N c).2.note events)
  have hevents : .unloaded ∉ events := fun hm => by
    obtain ⟨n, hn⟩ := ht _ hm
    cases hn
  have hrest' : .unloaded ∉ rest := fun hm => (hback _ hm).ne_unloaded rfl
  rw [hrest]
  exact (hc.trans (.note _ hevents)).trans (.note _ hrest')

/-- Whether a step has to do with who uses the library. -/
def Step.concernsUsers : Step → Bool
  | create _ | cloneInterface | dropInterface | release _ | drop _ => true
  | _ => false

namespace Session

variable {s s' : Session σ} {n : Nat}

/-! ## Those who share the library -/

/-- Interfaces, and solvers that have not ended. -/
def users (s : Session σ) : Nat := s.interfaces + s.solvers.length

/-- The library counts its users, of whom there are those of the session and `n` besides, and is there
as long as there are any. -/
structure Lodged (n : Nat) (s : Session σ) : Prop where
  there : s.library.isSome ↔ s.users + n ≠ 0
  counted : ∀ l, s.library = some l → l.users = s.users + n
  keeps : ∀ l, s.library = some l → l.keeps = s.keeps

theorem lodged_of_none {s : Session σ} {n : Nat} (hl : s.library = none) (hu : s.users + n = 0) :
    s.Lodged n where
  there := by
    rw [hl]
    exact iff_of_false Bool.false_ne_true fun h => h hu
  counted l h := by
    rw [hl] at h
    cases h
  keeps l h := by
    rw [hl] at h
    cases h

theorem lodged_of_some {s : Session σ} {n : Nat} {l : Library} (hl : s.library = some l)
    (hu : l.users = s.users + n) (hsome : s.users + n ≠ 0) (hk : l.keeps = s.keeps) : s.Lodged n where
  there := by
    rw [hl]
    exact iff_of_true rfl hsome
  counted l' h := by
    rw [hl] at h
    cases h
    exact hu
  keeps l' h := by
    rw [hl] at h
    cases h
    exact hk

/-- What is left after a change: a library in order, which has gone if nobody uses it any longer, and
that last of all. -/
structure Tends (n : Nat) (s s' : Session σ) : Prop where
  lodged : s'.Lodged n
  keeps : s'.keeps = s.keeps
  trace : ∃ events, .unloaded ∉ events ∧
    s'.trace = s.trace ++ (events ++ if s.users + n ≠ 0 ∧ s'.users + n = 0 then [.unloaded] else [])

/-- Nothing is done that has to do with who uses the library. -/
structure Quiet (s s' : Session σ) : Prop where
  library : s'.library = s.library
  keeps : s'.keeps = s.keeps
  interfaces : s'.interfaces = s.interfaces
  solvers : s'.solvers.keys = s.solvers.keys
  undisturbed : Undisturbed s.trace s'.trace

theorem Quiet.refl (s : Session σ) : Quiet s s := ⟨rfl, rfl, rfl, rfl, .refl _⟩

theorem Quiet.users (h : Quiet s s') : s'.users = s.users := by
  have hs := congrArg List.length h.solvers
  rw [Keyed.keys, Keyed.keys, List.length_map, List.length_map] at hs
  rw [Session.users, h.interfaces, hs, Session.users]

theorem Quiet.lodged (h : Quiet s s') (hs : s.Lodged n) : s'.Lodged n := by
  constructor
  · rw [h.library, h.users]
    exact hs.there
  · rw [h.library, h.users]
    exact hs.counted
  · rw [h.library, h.keeps]
    exact hs.keeps

theorem Quiet.tends (h : Quiet s s') (hs : s.Lodged n) : Tends n s s' := by
  obtain ⟨events, ht, hn⟩ := h.undisturbed
  refine ⟨h.lodged hs, h.keeps, events, hn, ?_⟩
  rw [h.users, if_neg fun hu => hu.1 hu.2, List.append_nil]
  exact ht

/-- What comes after something quiet. -/
theorem Quiet.then_tends {s₁ : Session σ} (h : Quiet s s₁) (h' : Tends n s₁ s') : Tends n s s' := by
  obtain ⟨events, ht, hn⟩ := h.undisturbed
  obtain ⟨events', hn', ht'⟩ := h'.trace
  refine ⟨h'.lodged, h'.keeps.trans h.keeps, events ++ events', by simp [hn, hn'], ?_⟩
  rw [ht', ht, h.users, List.append_assoc, List.append_assoc]

/-! ## One user less -/

@[simp] theorem leave_keeps (s : Session σ) : s.leave.keeps = s.keeps := by
  unfold leave
  cases s.library with
  | none => rfl
  | some l =>
    dsimp only
    split_ifs <;> rfl

@[simp] theorem leave_users (s : Session σ) : s.leave.users = s.users := by
  rw [users, leave_interfaces, leave_solvers, users]

/-- One who is no longer among the users of the session leaves. -/
theorem Lodged.leave (h : s.Lodged (n + 1)) :
    s.leave.Lodged n ∧
      s.leave.trace = s.trace ++ if s.users + n = 0 then [.unloaded] else [] := by
  have hsome : s.library.isSome := h.there.mpr (Nat.succ_ne_zero _)
  obtain ⟨l, hl⟩ := Option.isSome_iff_exists.mp hsome
  have hu : l.users = s.users + n + 1 := h.counted l hl
  have hk : l.keeps = s.keeps := h.keeps l hl
  by_cases hn : s.users + n = 0
  · have hlast : l.leave = none := if_pos (by omega)
    have hleave : s.leave = { s with library := none }.note [.unloaded] := by
      rw [Session.leave, hl]
      simp [hlast]
    rw [if_pos hn, hleave]
    exact ⟨lodged_of_none rfl hn, rfl⟩
  · have hmore : l.leave = some { l with users := s.users + n } := by
      rw [Library.leave, if_neg (by omega), hu]
      rfl
    have hleave : s.leave = { s with library := some { l with users := s.users + n } } := by
      rw [Session.leave, hl]
      simp [hmore]
    rw [if_neg hn, hleave, List.append_nil]
    exact ⟨lodged_of_some rfl rfl hn hk, rfl⟩

/-- One who leaves was a user of the session before. -/
theorem Lodged.leave_tends {s₀ : Session σ} (h₀ : s₀.Lodged n) (hl : s.library = s₀.library)
    (hk : s.keeps = s₀.keeps) (hu : s.users + 1 = s₀.users)
    (ht : Undisturbed s₀.trace s.trace) : Tends n s₀ s.leave := by
  have hcount : s.users + (n + 1) = s₀.users + n := by omega
  have h : s.Lodged (n + 1) := by
    constructor
    · rw [hl, hcount]
      exact h₀.there
    · rw [hl, hcount]
      exact h₀.counted
    · rw [hl, hk]
      exact h₀.keeps
  obtain ⟨hlodged, htrace⟩ := h.leave
  obtain ⟨events, he, hn⟩ := ht
  refine ⟨hlodged, (leave_keeps s).trans hk, events, hn, ?_⟩
  have hno : s₀.users + n ≠ 0 := by omega
  rw [htrace, he, leave_users, List.append_assoc]
  simp only [hno, ne_eq, not_false_eq_true, true_and]

theorem dropInterface_tends (h : s.Lodged 0) : Tends 0 s s.dropInterface := by
  unfold dropInterface
  split_ifs with hi
  · exact (Quiet.refl s).tends h
  · let fewer : Session σ := { s with interfaces := s.interfaces - 1 }
    have he : fewer.leave = { s.leave with interfaces := s.interfaces - 1 } := by
      show leave _ = _
      unfold leave
      cases s.library with
      | none => rfl
      | some l =>
        dsimp only
        split_ifs <;> rfl
    rw [← he]
    have hu : fewer.users + 1 = s.users := by
      show s.interfaces - 1 + s.solvers.length + 1 = s.interfaces + s.solvers.length
      omega
    exact h.leave_tends rfl rfl hu (.refl _)

/-! ## Ends of solvers -/

theorem length_erase {m : Keyed Int Solver} {key : Int} {solver : Solver}
    (hk : m.get? key = some solver) : (m.erase key).length + 1 = m.length := by
  have hmem : key ∈ m.keys := (Keyed.mem_keys_iff m key).mpr ⟨solver, hk⟩
  have h := List.length_erase_of_mem hmem
  have hpos := List.length_pos_of_mem hmem
  rw [← Keyed.keys_erase] at h
  simp only [Keyed.keys, List.length_map] at h hpos
  omega

theorem afterEnd_tends (h : s.Lodged n) {key : Int} {solver : Solver}
    (hk : s.solvers.get? key = some solver) {w : World σ}
    (hw : Undisturbed s.trace w.client.trace) : Tends n s (s.afterEnd key w) := by
  refine h.leave_tends (s := { s with world := w, solvers := s.solvers.erase key }) rfl rfl ?_ hw
  have hl := length_erase hk
  show s.interfaces + (s.solvers.erase key).length + 1 = s.interfaces + s.solvers.length
  omega

theorem dropSolver_tends (h : s.Lodged n) (key : Int) : Tends n s (s.dropSolver N key) := by
  unfold dropSolver
  cases hk : s.solvers.get? key with
  | none => exact (Quiet.refl s).tends h
  | some solver =>
    let called := (⟨solver, s.world⟩ : Focus σ).call N (.release solver.handle)
    have hw : Undisturbed s.trace
        (Solver.close (called.2.note [.notice (.dropped called.1.code)])).client.trace :=
      Solver.ended_undisturbed _ _ (by simp)
    exact afterEnd_tends h hk hw

theorem releaseSolver_tends (h : s.Lodged 0) (key : Int) :
    Tends 0 s (s.releaseSolver N key).2 := by
  unfold releaseSolver onSolver
  cases hk : s.solvers.get? key with
  | none => exact (Quiet.refl s).tends h
  | some solver =>
    dsimp only
    refine afterEnd_tends h hk ?_
    rw [release_apply]
    dsimp only
    split_ifs <;> exact Solver.ended_undisturbed _ _ (by simp)

/-! ## Beginnings of solvers -/

theorem length_set {m : Keyed Int Solver} {key : Int} (hk : m.get? key = none) (solver : Solver) :
    (m.set key solver).length = m.length + 1 := by
  have h := congrArg List.length (Keyed.keys_set_of_notMem ((Keyed.get?_eq_none_iff m key).mp hk) solver)
  simpa [Keyed.keys] using h

/-- The new solver shares the library before the one goes whose place it takes; so the library does not
go with that one. -/
theorem keepSolver_tends (hn : s.solvers.keys.Nodup) (h : s.Lodged 0) {l : Library}
    (hl : s.library = some l) (key : Int) (solver : Solver) :
    Tends 0 s (s.keepSolver N l key solver) := by
  let shared : Session σ := { s with library := some l.share }
  have hu : l.users = s.users := h.counted l hl
  have hshared : shared.Lodged 1 :=
    lodged_of_some rfl (congrArg (· + 1) hu) (Nat.succ_ne_zero _) (h.keeps l hl)
  have hd : Tends 1 shared (shared.dropSolver N key) := dropSolver_tends hshared key
  have hfree : (shared.dropSolver N key).solvers.get? key = none := dropSolver_get? (s := shared) hn key
  have husers : (s.keepSolver N l key solver).users = (shared.dropSolver N key).users + 1 := by
    have hset := length_set hfree solver
    show (shared.dropSolver N key).interfaces +
      ((shared.dropSolver N key).solvers.set key solver).length = _
    rw [hset, users, Nat.add_assoc]
  obtain ⟨hlodged, hkeeps, events, he, ht⟩ := hd
  refine ⟨⟨?_, ?_, hlodged.keeps⟩, hkeeps, events, he, ?_⟩
  · rw [husers]
    exact hlodged.there
  · rw [husers]
    exact hlodged.counted
  · have hno : ¬ ((shared.dropSolver N key).users + 1 = 0) := Nat.succ_ne_zero _
    rw [if_neg fun hu => hno hu.2] at ht
    rw [husers, if_neg fun hu => hno hu.2]
    exact ht

theorem interface?_eq_some {l : Library} (h : s.interface? = some l) :
    s.interfaces ≠ 0 ∧ s.library = some l := by
  rw [interface?] at h
  split_ifs at h with hi
  exact ⟨hi, h⟩

/-- A solver that is not made leaves nothing behind. -/
theorem create_tends (hn : s.solvers.keys.Nodup) (h : s.Lodged 0) (key : Int) :
    Tends 0 s (s.create N key).2 := by
  unfold create onInterface
  cases hl : s.interface? with
  | none => exact (Quiet.refl s).tends h
  | some l =>
    let called := s.world.call N none (l.symbols .init) .init
    have hc : Undisturbed s.trace called.2.client.trace := World.call_undisturbed _ _ _ _
    dsimp only
    rw [create_apply]
    dsimp only
    split_ifs
    · let opened : Session σ :=
        { s with world := (called.2.note [.notice .created]).opened called.1.handle }
      have hq : Quiet s opened :=
        ⟨rfl, rfl, rfl, rfl, (hc.trans (.note _ (by simp))).trans (.note _ (by simp))⟩
      exact hq.then_tends (keepSolver_tends (s := opened) hn (hq.lodged h)
        (interface?_eq_some hl).2 key _)
    · have hq : Quiet s { s with world := called.2.note [.notice (.returned .init called.1.code)] } :=
        ⟨rfl, rfl, rfl, rfl, hc.trans (.note _ (by simp))⟩
      exact hq.tends h

theorem cloneInterface_tends (h : s.Lodged 0) : Tends 0 s (s.step N .cloneInterface).2 := by
  simp only [step, onInterface]
  cases hl : s.interface? with
  | none => exact (Quiet.refl s).tends h
  | some l =>
    obtain ⟨hi, hlib⟩ := interface?_eq_some hl
    have hu : l.users = s.users := h.counted l hlib
    let more : Session σ := { s with library := some l.share, interfaces := s.interfaces + 1 }
    have husers : more.users = s.users + 1 := Nat.succ_add _ _
    have hpos : more.users ≠ 0 := husers ▸ Nat.succ_ne_zero _
    have hmore : more.Lodged 0 :=
      lodged_of_some rfl ((congrArg (· + 1) hu).trans husers.symm) hpos (h.keeps l hlib)
    refine ⟨hmore, rfl, [], by simp, ?_⟩
    rw [if_neg fun hu => hpos hu.2]
    exact (List.append_nil _).symm

/-! ## Everything else -/

theorem quiet_runOn {key : Int} {x : Act (Focus σ) α} (answer : Except Stop α → Answer)
    (hx : ∀ f, Solver.Moves N es f (x f).2) (s : Session σ) : Quiet s (s.runOn key x answer).2 := by
  cases hk : s.solvers.get? key with
  | none =>
    rw [runOn, onSolver, hk]
    exact .refl s
  | some solver =>
    rw [runOn_of_get? hk]
    have hm : key ∈ s.solvers.keys := (Keyed.mem_keys_iff _ key).mpr ⟨solver, hk⟩
    exact ⟨rfl, rfl, rfl, Keyed.keys_set_of_mem hm _, (hx ⟨solver, s.world⟩).undisturbed⟩

theorem quiet_signature (s : Session σ) : Quiet s (s.step N .signature).2 := by
  simp only [step, onInterface]
  cases s.interface? with
  | none => exact .refl s
  | some l =>
    have hw : Undisturbed s.trace (l.signature N s.world).2.client.trace := by
      have hc : Undisturbed s.trace
          (s.world.call N none (l.symbols .signature) .signature).2.client.trace :=
        World.call_undisturbed _ _ _ _
      rw [signature_apply]
      dsimp only
      split_ifs
      · exact hc
      · exact hc.trans (.note _ (by simp))
    exact ⟨rfl, rfl, rfl, rfl, hw⟩

theorem quiet_getOption (key : Int) (name : String) (keep : Option String) (s : Session σ) :
    Quiet s (s.getOption N key name keep).2 := by
  have h : Quiet s (s.runOn key (Solver.getOption N name) (.ofResult .option)).2 :=
    quiet_runOn _ (Solver.moves_getOption name) s
  unfold getOption
  split
  · rename_i hr
    rw [hr] at h
    exact ⟨h.library, h.keeps, h.interfaces, h.solvers, h.undisturbed⟩
  · exact h

/-- A step that has nothing to do with who uses the library. -/
theorem quiet_step {action : Step} (h : action.concernsUsers = false) :
    Quiet s (s.step N action).2 := by
  cases action with
  | create key => cases h
  | cloneInterface => cases h
  | dropInterface => cases h
  | release key => cases h
  | drop key => cases h
  | signature => exact quiet_signature s
  | origin =>
    simp only [step, onInterface]
    cases s.interface? <;> exact .refl s
  | countKeepers => exact .refl s
  | optionsEqual a b => exact .refl s
  | add key lits redundancy =>
    have hx (f : Focus σ) : Solver.Moves N [.add] f (Solver.addLits N lits redundancy f).2 := by
      cases lits <;> exact Solver.moves_addClause _ redundancy f
    exact quiet_runOn _ hx s
  | assume key lits =>
    have hx (f : Focus σ) : Solver.Moves N [.solve] f (Solver.solveLits N lits f).2 := by
      cases lits <;> exact Solver.moves_solveUnder _ f
    exact quiet_runOn _ hx s
  | solve key => exact quiet_runOn _ (Solver.moves_solveUnder _) s
  | val key lit =>
    have hx (f : Focus σ) : Solver.Moves N [.val] f (Solver.valueOfLit N lit f).2 := by
      cases lit <;> exact Solver.moves_litValue _ f
    exact quiet_runOn _ hx s
  | failed key lit =>
    have hx (f : Focus σ) : Solver.Moves N [.failed] f (Solver.litFailed N lit f).2 := by
      cases lit <;> exact Solver.moves_assumptionFailed _ f
    exact quiet_runOn _ hx s
  | setTerminate key closure => exact quiet_runOn _ (Solver.moves_setTerminate closure) s
  | setExport key listener maxLength =>
    exact quiet_runOn _ (Solver.moves_setExport listener maxLength) s
  | clearTerminate key => exact quiet_runOn _ Solver.moves_clearTerminate s
  | clearExport key => exact quiet_runOn _ Solver.moves_clearExport s
  | getOptions key => exact quiet_runOn _ Solver.moves_getOptions s
  | getOption key name keep => exact quiet_getOption key name keep s
  | hasOption key name => exact quiet_runOn _ (Solver.moves_hasOption name) s
  | setOption key option value index =>
    simp only [step, setOption, onSolver]
    cases hk : s.solvers.get? key with
    | none => exact .refl s
    | some solver =>
      dsimp only
      cases s.option? option with
      | none => exact .refl s
      | some o => exact quiet_runOn _ (Solver.moves_setOption o value index) s
  | setByName key name value index => exact quiet_runOn _ (Solver.moves_setByName name value index) s
  | configure key texts =>
    simp only [step, configure, onSolver]
    cases hk : s.solvers.get? key with
    | none => exact .refl s
    | some solver =>
      dsimp only
      cases texts.mapM Setting.read with
      | error m => exact .refl s
      | ok settings => exact quiet_runOn _ (Solver.moves_configure settings) s

/-! ## Every turn -/

/-- **A step leaves the library in order.** Few steps have to do with who uses it. -/
theorem step_tends (hn : s.solvers.keys.Nodup) (h : s.Lodged 0) (action : Step) :
    Tends 0 s (s.step N action).2 := by
  cases hq : action.concernsUsers with
  | false => exact (quiet_step hq).tends h
  | true =>
    cases action with
    | create key => exact create_tends hn h key
    | cloneInterface => exact cloneInterface_tends h
    | dropInterface => exact dropInterface_tends h
    | release key => exact releaseSolver_tends h key
    | drop key =>
      simp only [step, onSolver]
      cases hk : s.solvers.get? key with
      | none => exact (Quiet.refl s).tends h
      | some solver => exact dropSolver_tends h key
    | _ => cases hq

theorem turn_tends (hn : s.solvers.keys.Nodup) (h : s.Lodged 0) (t : Turn σ) :
    Tends 0 s (s.turn N t).2 := by
  cases t with
  | client action => exact step_tends hn h action
  | native d =>
    have hq : Quiet s (s.visited d) :=
      ⟨rfl, rfl, rfl, rfl, (d.run_visits s.world.client).undisturbed⟩
    exact hq.tends h

/-- In a turn the library goes last of all, and only if nobody is left who uses it. -/
theorem passage_unloaded (hs : s.stage.Sound) (h : s.Lodged 0) (t : Turn σ) :
    ∃ events, .unloaded ∉ events ∧ (s.passage N t).events =
      events ++ if s.users ≠ 0 ∧ (s.turn N t).2.users = 0 then [.unloaded] else [] := by
  obtain ⟨events, hn, ht⟩ := (turn_tends hs.keys h t).trace
  exact ⟨events, hn, passage_events ht⟩

/-- By induction on the turns. -/
theorem lodged_after (hs : s.stage.Sound) (h : s.Lodged 0) (turns : List (Turn σ)) :
    (s.after N turns).Lodged 0 ∧ (s.after N turns).keeps = s.keeps := by
  induction turns generalizing s with
  | nil => exact ⟨h, rfl⟩
  | cons t ts ih =>
    have ht : Tends 0 s (s.turn N t).2 := turn_tends hs.keys h t
    obtain ⟨hl, hk⟩ := ih (sound_turn hs t) ht.lodged
    exact ⟨hl, hk.trans ht.keeps⟩

/-! ## Without the library -/

/-- Without an interface and without a solver a client can do nothing. -/
theorem step_of_nobody (h : s.users = 0) (action : Step) : (s.step N action).2 = s := by
  obtain ⟨hi, hl⟩ := Nat.add_eq_zero_iff.mp h
  have hface : s.interface? = none := if_pos hi
  have hkey (key : Int) : s.solvers.get? key = none := by
    rw [List.length_eq_zero_iff.mp hl]
    rfl
  have hrun {β : Type} (key : Int) (x : Act (Focus σ) β) (answer : Except Stop β → Answer) :
      s.runOn key x answer = (.refused .noSolver, s) := by
    rw [runOn, onSolver, hkey]
  cases action <;>
    simp only [step, create, onInterface, hface, dropInterface, hi, if_true, hrun, getOption, setOption,
      configure, releaseSolver, onSolver, hkey]

/-- Without a user of the library nothing happens but visits of native solvers. -/
theorem turn_of_nobody (h : s.users = 0) (t : Turn σ) :
    (s.turn N t).2.users = 0 ∧ ∃ events, (s.turn N t).2.trace = s.trace ++ events ∧
      .unloaded ∉ events ∧ callsMade events = [] ∧ callsReturned events = [] := by
  cases t with
  | client action =>
    rw [turn, step_of_nobody h]
    exact ⟨h, [], by simp, by simp, rfl, rfl⟩
  | native d =>
    obtain ⟨events, ht, hv⟩ := (d.run_visits s.world.client).events
    have hn : ∀ e ∈ events, e.IsNote := fun e he => (hv e he).isNote
    exact ⟨h, events, ht, fun hm => (by cases hv _ hm), callsMade_of_isNote hn,
      callsReturned_of_isNote hn⟩

/-- No native function is called, and none returns, once the library has gone. -/
def Sheltered (trace : List Event) : Prop :=
  ∀ earlier later, trace = earlier ++ .unloaded :: later → callsMade later = [] ∧ callsReturned later = []

theorem sheltered_of_notMem {t : List Event} (h : .unloaded ∉ t) : Sheltered t := by
  rintro earlier later rfl
  exact absurd (List.mem_append_right _ List.mem_cons_self) h

theorem sheltered_snoc {t : List Event} (h : .unloaded ∉ t) : Sheltered (t ++ [.unloaded]) := by
  intro earlier later he
  rcases old_or_new he with ⟨rest, rfl, -⟩ | ⟨mid, -, hm⟩
  · exact absurd (List.mem_append_right _ List.mem_cons_self) h
  · cases mid with
    | nil =>
      obtain ⟨-, rfl⟩ := List.cons.inj hm
      exact ⟨rfl, rfl⟩
    | cons e mid => simp at hm

theorem Sheltered.append {t events : List Event} (h : Sheltered t) (hn : .unloaded ∉ events)
    (hm : callsMade events = []) (hr : callsReturned events = []) : Sheltered (t ++ events) := by
  intro earlier later he
  rcases old_or_new he with ⟨rest, ht, rfl⟩ | ⟨mid, -, rfl⟩
  · obtain ⟨h₁, h₂⟩ := h earlier rest ht
    simp [h₁, h₂, hm, hr]
  · exact absurd (List.mem_append_right _ List.mem_cons_self) hn

/-- The library has not gone as long as anyone uses it, and what has happened since it went needs
none. -/
structure Safe (s : Session σ) : Prop where
  used : s.users ≠ 0 → .unloaded ∉ s.trace
  sheltered : Sheltered s.trace

theorem Safe.turn (hp : s.Safe) (hs : s.stage.Sound) (h : s.Lodged 0) (t : Turn σ) :
    (s.turn N t).2.Safe := by
  by_cases hu : s.users = 0
  · obtain ⟨hu', events, ht, hn, hm, hr⟩ := turn_of_nobody (N := N) hu t
    refine ⟨fun h => absurd hu' h, ?_⟩
    rw [ht]
    exact hp.sheltered.append hn hm hr
  · obtain ⟨events, hn, ht⟩ := (turn_tends (N := N) hs.keys h t).trace
    have hno : .unloaded ∉ s.trace ++ events := by simp [hp.used hu, hn]
    rw [← List.append_assoc] at ht
    by_cases hu' : (s.turn N t).2.users = 0
    · rw [if_pos ⟨hu, hu'⟩] at ht
      refine ⟨fun h => absurd hu' h, ?_⟩
      rw [ht]
      exact sheltered_snoc hno
    · rw [if_neg fun h => hu' h.2, List.append_nil] at ht
      rw [← ht] at hno
      exact ⟨fun _ => hno, sheltered_of_notMem hno⟩

/-- By induction on the turns. -/
theorem Safe.after (hp : s.Safe) (hs : s.stage.Sound) (h : s.Lodged 0) (turns : List (Turn σ)) :
    (s.after N turns).Safe := by
  induction turns generalizing s with
  | nil => exact hp
  | cons t ts ih =>
    exact ih (hp.turn hs h t) (sound_turn hs t) (turn_tends hs.keys h t).lodged

/-- By induction on the turns. -/
theorem after_of_nobody (h : s.users = 0) (turns : List (Turn σ)) :
    (s.after N turns).users = 0 ∧ callsMade (s.after N turns).trace = callsMade s.trace := by
  induction turns generalizing s with
  | nil => exact ⟨h, rfl⟩
  | cons t ts ih =>
    obtain ⟨hu, events, ht, -, hm, -⟩ := turn_of_nobody (N := N) h t
    obtain ⟨hu', hc⟩ := ih hu
    refine ⟨hu', hc.trans ?_⟩
    rw [ht, callsMade_append, hm, List.append_nil]

/-! ## The end of a session -/

theorem dropInterface_interfaces (s : Session σ) :
    s.dropInterface.interfaces = s.interfaces - 1 := by
  unfold dropInterface
  split_ifs with hi
  · rw [hi]
  · rfl

theorem finish_users (s : Session σ) : (s.finish N).users = 0 := by
  have hr (n : Nat) (s : Session σ) :
      (Nat.repeat dropInterface n s).interfaces = s.interfaces - n := by
    induction n with
    | zero => rfl
    | succ n ih =>
      show (dropInterface _).interfaces = _
      rw [dropInterface_interfaces, ih]
      omega
  have hi : (s.finish N).interfaces = 0 := (hr _ _).trans (Nat.sub_self _)
  rw [users, hi, finish_solvers]
  rfl

/-! ## Keeping alive -/

/-- A library that is loaded has the interface of the client for its user; one that is not has none. -/
theorem lodged_start (opening : Opening) (native : σ) :
    (start opening native).2.Lodged 0 ∧ .unloaded ∉ (start opening native).2.trace := by
  refine ⟨?_, fun h => start_ofSearch opening native _ h⟩
  cases opening with
  | known => exact lodged_of_some rfl rfl Nat.one_ne_zero rfl
  | resolved path keeps answer =>
    rcases hr : Symbols.resolve (answering answer) path () with ⟨e | symbols, events, r⟩ <;>
      simp only [start, load, hr]
    · exact lodged_of_none rfl rfl
    · exact lodged_of_some rfl rfl Nat.one_ne_zero rfl

/-- A load that fails makes no native call, and leaves no one who could make one. -/
theorem load_of_error {ρ : Type} {R : Resolver ρ} {path : String} {keeps : Bool} {r : ρ} {native : σ}
    {e : Failure} (h : (load R path keeps r native).1.1 = .loaded (.error e)) :
    (load R path keeps r native).1.2.users = 0 ∧
      callsMade (load R path keeps r native).1.2.trace = [] := by
  constructor
  · rcases hr : Symbols.resolve R path r with ⟨e | symbols, events, r'⟩ <;> simp only [load, hr] at h ⊢
    · rfl
    · cases h
  · have ht : (load R path keeps r native).1.2.trace = (Symbols.resolve R path r).2.1 :=
      congrArg (fun st => st.world.client.trace) (load_stage R path keeps r native)
    rw [ht]
    exact callsMade_of_isNote fun e he => (resolveAll_events R path EntryPoint.all _ r e he).2

theorem start_of_error {opening : Opening} {native : σ} {e : Failure}
    (h : (start opening native).1 = .loaded (.error e)) :
    (start opening native).2.users = 0 ∧ callsMade (start opening native).2.trace = [] := by
  cases opening with
  | known => cases h
  | resolved path keeps answer => exact load_of_error h

theorem Lodged.keepers (h : s.Lodged 0) (hk : s.keeps) :
    s.keepers = some (if s.users = 0 then 0 else 1) := by
  rw [Session.keepers, if_pos hk]
  by_cases hu : s.users = 0
  · rw [if_pos hu, if_neg fun ht => h.there.mp ht hu]
  · rw [if_neg hu, if_pos (h.there.mpr hu)]

/-- **What the client gave to be kept alive is kept once as long as there is an interface or a solver that
has not ended, and not afterwards.** It is kept when a native function is called, and goes as the last
thing that happens in a turn, if the last user goes in it. A load that fails keeps nothing. -/
theorem kept_while_used (N : Native σ) (path : String) (answer : String → Except String Address)
    (native : σ) (turns : List (Turn σ)) :
    let opening : Opening := .resolved path true answer
    let s := (start opening native).2.after N turns
    s.keepers = some (if s.users = 0 then 0 else 1) ∧
      (∀ l, s.library = some l → l.keeps ∧ l.users = s.users) ∧
      (∀ t, ∃ events, .unloaded ∉ events ∧ (s.passage N t).events =
        events ++ if s.users ≠ 0 ∧ (s.turn N t).2.users = 0 then [.unloaded] else []) ∧
      (∀ t, callsMade (s.passage N t).events ≠ [] → s.keepers = some 1) ∧
      Sheltered s.trace ∧
      (s.finish N = s.after N s.farewell ∧ (s.finish N).keepers = some 0) ∧
      ∀ e, (start opening native).1 = .loaded (.error e) →
        s.users = 0 ∧ s.keepers = some 0 ∧ callsMade s.trace = [] := by
  intro opening s
  obtain ⟨hl₀, hu₀⟩ := lodged_start opening native
  have hs₀ : (start opening native).2.stage.Sound := sound_start opening native
  have hk₀ : (start opening native).2.keeps := by
    rcases hr : Symbols.resolve (answering answer) path () with ⟨e | symbols, events, r⟩ <;>
      simp [opening, start, load, hr]
  have hsafe₀ : (start opening native).2.Safe := ⟨fun _ => hu₀, sheltered_of_notMem hu₀⟩
  have hs : s.stage.Sound := sound_after hs₀ turns
  obtain ⟨hl, hk⟩ : s.Lodged 0 ∧ s.keeps = _ := lodged_after hs₀ hl₀ turns
  rw [hk₀] at hk
  have hkeepers := hl.keepers hk
  refine ⟨hkeepers, fun l h => ⟨(hl.keeps l h).trans hk, hl.counted l h⟩, passage_unloaded hs hl,
    fun t hc => ?_, (hsafe₀.after hs₀ hl₀ turns).sheltered, ⟨finish_eq s, ?_⟩, fun e he => ?_⟩
  · rw [hkeepers, if_neg fun hu => hc ?_]
    obtain ⟨-, events, ht, -, hm, -⟩ := turn_of_nobody (N := N) hu t
    rw [passage_events ht, hm]
  · obtain ⟨hl', hk'⟩ := lodged_after hs hl s.farewell (N := N)
    rw [← finish_eq] at hl' hk'
    rw [hl'.keepers (hk'.trans hk), if_pos (finish_users s)]
  · obtain ⟨hnobody, hcalls⟩ := start_of_error he
    obtain ⟨hu, hc⟩ := after_of_nobody (N := N) hnobody turns
    exact ⟨hu, hkeepers.trans (by rw [if_pos hu]), hc.trans hcalls⟩

/-- The last solver outlives the interface: the library goes when its release has returned. -/
example : ∃ s : Session Nat,
    s = (start (.resolved "" true fun _ => .ok 1) 0).2.after Constant.native
        [.client (.create 1), .client .dropInterface] ∧
      s.users = 1 ∧ s.keepers = some 1 ∧
      (s.passage Constant.native (.client (.drop 1))).events =
        [.called (some 1) 1 (.release 1), .returned (some 1) (.release 1) {}, .notice (.dropped .ok),
          .closed 1, .unloaded] ∧
      (s.turn Constant.native (.client (.drop 1))).2.keepers = some 0 :=
  ⟨_, rfl, rfl, rfl, rfl, rfl⟩

end Session

end SatClient
