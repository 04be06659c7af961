import SatClient.Proofs.Visit

/-!
# The moves of operations

An operation on a solver is a chain of moves, each of which does one thing to the solver or to the
world. What every move keeps, every operation keeps.

* `Solver.Makes`: the calls which the library makes for a solver: with the handle of the solver,
  and with its own bridge where a callback is registered
* `Solver.Move`: a move of an operation that calls no functions but those in a list
* `Solver.Moves`, `Solver.Moves.bind`: moves one after the other
* **`moves_addClause`**, **`moves_solveUnder`**, …: each operation makes moves, with the functions
  that it may call
* `Event.GivesBack`, `Solver.close_trace`: what happens at the end of a solver
-/

namespace SatClient

open Relation

variable {σ α β : Type}

def Slot.entry : Slot → EntryPoint
  | .terminate => .setTerminate
  | .exporter => .setExport

/-- The data and the callback that a call registers; both are null if it clears one. -/
def Call.registration? : Call → Option (Option Nat × Option Callback)
  | .setTerminate _ data callback | .setExport _ data _ callback => some (data, callback)
  | _ => none

/-- The function of this library, with the bridge of the solver `i`. -/
def Hook.own (i : Nat) : Hook := ⟨.trampoline, i⟩

namespace Solver

/-- What the library registers for a solver: its bridge and the function of this library. -/
def ownRegistration (s : Solver) : Option Nat × Option Callback := (some s.identity, some .trampoline)

/-- The calls which the library makes for a solver. -/
structure Makes (s : Solver) (c : Call) : Prop where
  handle : c.handle? = some s.handle
  registration : ∀ r ∈ c.registration?, r = s.ownRegistration ∨ r = (none, none)
  live : c.entry ≠ .release

theorem makes_of_none {s : Solver} {c : Call} (h : c.handle? = some s.handle)
    (hr : c.registration? = none) (hl : c.entry ≠ .release) : s.Makes c :=
  ⟨h, fun r h => (by rw [hr] at h; cases h), hl⟩

theorem makes_of_some {s : Solver} {c : Call} {r : Option Nat × Option Callback}
    (h : c.handle? = some s.handle) (hr : c.registration? = some r)
    (hs : r = s.ownRegistration ∨ r = (none, none)) : s.Makes c := by
  refine ⟨h, fun r' h => (by rw [hr] at h; cases h; exact hs), ?_⟩
  intro he
  cases c <;> cases hr <;> cases he

/-- A move of an operation that calls no functions but those in the list `es`. -/
inductive Move (N : Native σ) (es : List EntryPoint) : Focus σ → Focus σ → Prop
  | tell (n : Notice) (f : Focus σ) : Move N es f (f.note [.notice n])
  | buffer (buffer : List Int32) (f : Focus σ) : Move N es f (f.withBuffer buffer)
  | options {found : Except Failure Discovered} {f : Focus σ} (he : .options ∈ es) :
      Move N es f (f.withOptions found)
  | call {c : Call} {f : Focus σ} (he : c.entry ∈ es) (hc : f.solver.Makes c) :
      Move N es f (f.call N c).2
  | resume {p : Payload} {f : Focus σ} (he : .solve ∈ es) (hp : f.bridge.failure = some p) :
      Move N es f ((f.setBridge { f.bridge with failure := none }).note
        [.resumed f.solver.identity p])
  | take {slot : Slot} {tag : String} {f : Focus σ} (he : slot.entry ∈ es) :
      Move N es f (f.note [.taken f.solver.identity slot tag])
  | drop {slot : Slot} {tag : String} {f : Focus σ} (he : slot.entry ∈ es) :
      Move N es f (f.note [.dropped f.solver.identity slot tag])
  | settleTerminate {closure : Option Closure} {f : Focus σ} (he : .setTerminate ∈ es) :
      Move N es f (settledTerminate closure f)
  | settleExporter {listener : Option Listener} {f : Focus σ} (he : .setExport ∈ es) :
      Move N es f (settledExporter listener f)

abbrev Moves (N : Native σ) (es : List EntryPoint) : Focus σ → Focus σ → Prop :=
  ReflTransGen (Move N es)

variable {N : Native σ} {es : List EntryPoint}

theorem Move.mono {es' : List EntryPoint} (hs : es ⊆ es') {f f' : Focus σ} (h : Move N es f f') :
    Move N es' f f' := by
  cases h with
  | tell n => exact .tell n f
  | buffer b => exact .buffer b f
  | options he => exact .options (hs he)
  | call he hc => exact .call (hs he) hc
  | resume he hp => exact .resume (hs he) hp
  | take he => exact .take (hs he)
  | drop he => exact .drop (hs he)
  | settleTerminate he => exact .settleTerminate (hs he)
  | settleExporter he => exact .settleExporter (hs he)

theorem Moves.mono {es' : List EntryPoint} (hs : es ⊆ es') {f f' : Focus σ} (h : Moves N es f f') :
    Moves N es' f f' :=
  Relation.ReflTransGen.mono (fun _ _ h => h.mono hs) _ _ h

theorem Move.solver_eq {f f' : Focus σ} (h : Move N es f f') :
    f'.solver.identity = f.solver.identity ∧ f'.solver.handle = f.solver.handle ∧
      f'.solver.symbols = f.solver.symbols := by
  cases h <;> exact ⟨rfl, rfl, rfl⟩

theorem Moves.solver_eq {f f' : Focus σ} (h : Moves N es f f') :
    f'.solver.identity = f.solver.identity ∧ f'.solver.handle = f.solver.handle ∧
      f'.solver.symbols = f.solver.symbols := by
  induction h with
  | refl => exact ⟨rfl, rfl, rfl⟩
  | tail _ h ih =>
    obtain ⟨h₁, h₂, h₃⟩ := h.solver_eq
    exact ⟨h₁.trans ih.1, h₂.trans ih.2.1, h₃.trans ih.2.2⟩

/-! ## Chains -/

theorem Moves.bind {x : Act (Focus σ) α} {g : α → Act (Focus σ) β} {f : Focus σ}
    (hx : Moves N es f (x f).2)
    (hg : ∀ a f', x f = (.ok a, f') → Moves N es f' (g a f').2) :
    Moves N es f ((x >>= g) f).2 := by
  rw [Act.bind_apply]
  rcases hr : x f with ⟨e | a, f'⟩
  · rw [hr] at hx
    exact hx
  · rw [hr] at hx
    exact hx.trans (hg a f' hr)

theorem moves_check (e : EntryPoint) (code : Code) (f : Focus σ) :
    Moves N es f (check e code f).2 := by
  rw [check_apply]
  split_ifs
  · exact .refl
  · exact .single (.tell _ f)

theorem moves_called {c : Call} {f : Focus σ} (he : c.entry ∈ es) (hc : f.solver.Makes c)
    (e : EntryPoint) : Moves N es f (check e (f.call N c).1.code (f.call N c).2).2 :=
  .head (.call he hc) (moves_check e _ _)

/-! ## Clauses, solves and models -/

variable {L : Type} [Literal L]

theorem moves_addClause (given : Given L) (redundancy : Redundancy) (f : Focus σ) :
    Moves N [.add] f (addClause N given redundancy f).2 := by
  rw [addClause_apply]
  rcases given.view f.solver.buffer with ⟨o | v, buffer⟩
  · exact .single (.buffer buffer f)
  · dsimp only
    split_ifs
    · refine .head (.buffer buffer f) (.head (.tell _ _) (moves_called (by simp [Call.entry]) ?_ _))
      exact makes_of_none rfl rfl nofun
    · exact .single (.buffer buffer f)

theorem moves_conclude (reply : Reply) (f : Focus σ) :
    Moves N [.solve] f (conclude reply f).2 := by
  rw [conclude_apply]
  cases hp : f.bridge.failure with
  | some p => exact .head (.resume (by decide) hp) (.single (.tell _ _))
  | none =>
    dsimp only
    split_ifs <;> exact .single (.tell _ f)

theorem moves_solveUnder (given : Given L) (f : Focus σ) :
    Moves N [.solve] f (solveUnder N given f).2 := by
  rw [solveUnder_apply]
  rcases given.view f.solver.buffer with ⟨o | v, buffer⟩
  · exact .single (.buffer buffer f)
  · dsimp only
    split_ifs
    · refine .head (.buffer buffer f) (.head (.tell _ _) (.head (.call (by simp [Call.entry]) ?_)
        (moves_conclude _ _)))
      exact makes_of_none rfl rfl nofun
    · exact .single (.buffer buffer f)

theorem moves_litValue (l : L) (f : Focus σ) : Moves N [.val] f (litValue N l f).2 := by
  rw [litValue_apply]
  cases Literal.toNative l with
  | error o => exact .refl
  | ok asked =>
    have h : Move N [.val] f (f.call N (.val f.solver.handle asked)).2 :=
      .call (by simp [Call.entry]) (makes_of_none rfl rfl nofun)
    dsimp only
    split_ifs
    · exact .single h
    · exact .head h (.single (.tell _ _))

theorem moves_assumptionFailed (l : L) (f : Focus σ) :
    Moves N [.failed] f (assumptionFailed N l f).2 := by
  rw [assumptionFailed_apply]
  cases Literal.toNative l with
  | error o => exact .refl
  | ok asked =>
    have h : Move N [.failed] f (f.call N (.failed f.solver.handle asked)).2 :=
      .call (by simp [Call.entry]) (makes_of_none rfl rfl nofun)
    dsimp only
    split_ifs
    · exact .single h
    · exact .head h (.single (.tell _ _))

/-! ## Registration of closures -/

/-- A closure is taken, and the native solver is told to call the bridge back. -/
theorem moves_enrolled {slot : Slot} {tag : String} {c : Call} {f : Focus σ} (hs : slot.entry ∈ es)
    (he : c.entry ∈ es) (hc : c.handle? = some f.solver.handle)
    (hr : c.registration? = some f.solver.ownRegistration) (n : Notice) :
    Moves N es f (((f.note [.taken f.solver.identity slot tag]).call N c).2.note [.notice n]) :=
  .head (.take hs) (.head (.call he (makes_of_some hc hr (.inl rfl))) (.single (.tell n _)))

theorem moves_cleared {c : Call} {f : Focus σ} (he : c.entry ∈ es)
    (hc : c.handle? = some f.solver.handle) (hr : c.registration? = some (none, none)) (n : Notice) :
    Moves N es f ((f.call N c).2.note [.notice n]) :=
  .head (.call he (makes_of_some hc hr (.inr rfl))) (.single (.tell n _))

theorem moves_setTerminate (closure : Closure) (f : Focus σ) :
    Moves N [.setTerminate] f (setTerminate N closure f).2 := by
  have hs : Slot.terminate.entry ∈ [EntryPoint.setTerminate] := by decide
  have he : EntryPoint.setTerminate ∈ [EntryPoint.setTerminate] := by decide
  rw [setTerminate_apply]
  dsimp only
  split_ifs
  · exact .head (.take hs) (.head (.tell .replaced _) (.single (.settleTerminate he)))
  · exact (moves_enrolled hs (by exact he) rfl rfl _).tail (.settleTerminate he)
  · refine .trans ?_ (moves_check _ _ _)
    exact ((moves_enrolled hs (by exact he) rfl rfl _).tail (.settleTerminate he)).tail (.drop hs)

theorem moves_clearTerminate (f : Focus σ) :
    Moves N [.setTerminate] f (clearTerminate N f).2 := by
  have he : EntryPoint.setTerminate ∈ [EntryPoint.setTerminate] := by decide
  rw [clearTerminate_apply]
  refine .trans ?_ (moves_check _ _ _)
  exact (moves_cleared (by exact he) rfl rfl _).tail (.settleTerminate he)

theorem moves_setExport (listener : Listener) (maxLength : Int32) (f : Focus σ) :
    Moves N [.setExport] f (setExport N listener maxLength f).2 := by
  have hs : Slot.exporter.entry ∈ [EntryPoint.setExport] := by decide
  have he : EntryPoint.setExport ∈ [EntryPoint.setExport] := by decide
  rw [setExport_apply]
  dsimp only
  split_ifs
  · exact (moves_enrolled hs (by exact he) rfl rfl _).tail (.settleExporter he)
  · refine .trans ?_ (moves_check _ _ _)
    exact ((moves_enrolled hs (by exact he) rfl rfl _).tail (.settleExporter he)).tail (.drop hs)

theorem moves_clearExport (f : Focus σ) : Moves N [.setExport] f (clearExport N f).2 := by
  have he : EntryPoint.setExport ∈ [EntryPoint.setExport] := by decide
  rw [clearExport_apply]
  refine .trans ?_ (moves_check _ _ _)
  exact (moves_cleared (by exact he) rfl rfl _).tail (.settleExporter he)

/-! ## Options -/

theorem moves_discover (f : Focus σ) : Moves N [.options] f (discover N f).2 := by
  rw [discover_apply]
  cases f.solver.options with
  | some found => exact .refl
  | none =>
    have h : Move N [.options] f (f.call N (.options f.solver.handle)).2 :=
      .call (by simp [Call.entry]) (makes_of_none rfl rfl nofun)
    simp only [lookForOptions_apply]
    split_ifs
    · exact .head h (.head (.tell _ _) (.single (.options (by decide))))
    · exact .head h (.head (.options (by decide)) (.single (.tell _ _)))

theorem moves_discovered {g : Discovered → Act (Focus σ) α} (hg : ∀ d f, (g d f).2 = f)
    (f : Focus σ) : Moves N [.options] f ((discover N >>= g) f).2 := by
  refine .bind (moves_discover f) ?_
  intro d f' _
  rw [hg d f']

theorem moves_getOptions (f : Focus σ) : Moves N [.options] f (getOptions N f).2 :=
  moves_discovered (fun _ _ => rfl) f

theorem moves_getOption (name : String) (f : Focus σ) :
    Moves N [.options] f (getOption N name f).2 := by
  refine moves_discovered ?_ f
  intro d f'
  cases d.find? name <;> rfl

theorem moves_hasOption (name : String) (f : Focus σ) :
    Moves N [.options] f (hasOption N name f).2 :=
  moves_discovered (fun _ _ => rfl) f

theorem moves_setDescribed (descriptor : Descriptor) (name : String) (value index : Int64)
    (f : Focus σ) :
    Moves N [.setOption] f (setDescribed N descriptor name value index f).2 := by
  rw [setDescribed_apply]
  exact .head (.tell _ f) (moves_called (by simp [Call.entry]) (makes_of_none rfl rfl (by nofun)) _)

theorem moves_setFound (found : Option Descriptor) (name : String) (value index : Int64)
    (f : Focus σ) :
    Moves N [.setOption] f
      ((match found with
        | some descriptor => setDescribed N descriptor name value index
        | none => .fail (.unknownOption name)) f).2 := by
  cases found with
  | none => exact .refl
  | some descriptor => exact moves_setDescribed descriptor name value index f

theorem moves_setOption (option : SolverOption) (value index : Int64) (f : Focus σ) :
    Moves N [.options, .setOption] f (setOption N option value index f).2 := by
  refine .bind .refl ?_
  intro s f' _
  refine .bind ((moves_discover f').mono (by simp)) ?_
  intro d f'' _
  exact (moves_setFound _ option.name value index f'').mono (by simp)

theorem moves_setByName (name : String) (value index : Int64) (f : Focus σ) :
    Moves N [.options, .setOption] f (setByName N name value index f).2 := by
  refine .bind ((moves_discover f).mono (by simp)) ?_
  intro d f' _
  exact (moves_setFound _ name value index f').mono (by simp)

/-- By induction on the settings, of which each is applied after those before it. -/
theorem moves_configure (settings : List Setting) (f : Focus σ) :
    Moves N [.options, .setOption] f (configure N settings f).2 := by
  induction settings generalizing f with
  | nil => exact .refl
  | cons s rest ih =>
    refine .bind (.single (.tell (.applying s) f)) ?_
    intro _ f' _
    refine .bind (moves_setByName s.name s.value s.index f') ?_
    intro _ f'' _
    exact ih f''

end Solver

/-! ## What is given back -/

/-- The library gives back what the solver `i` has left with it. -/
inductive Event.GivesBack (i : Nat) : Event → Prop
  | dropped (slot : Slot) (tag : String) : GivesBack i (.dropped i slot tag)
  | discarded (p : Payload) : GivesBack i (.discarded i p)
  | closed : GivesBack i (.closed i)

theorem Bridge.dropEvents_givesBack (i : Nat) (b : Bridge) (slot : Slot) :
    ∀ e ∈ b.dropEvents i slot, e.GivesBack i := by
  intro e he
  cases slot <;> obtain ⟨c, -, rfl⟩ := List.mem_map.mp he <;> exact .dropped _ _

theorem Bridge.discardEvents_givesBack (i : Nat) (b : Bridge) :
    ∀ e ∈ b.discardEvents i, e.GivesBack i := by
  intro e he
  obtain ⟨p, -, rfl⟩ := List.mem_map.mp he
  exact .discarded p

/-- At its end a solver gives everything back. -/
theorem Solver.close_trace (f : Focus σ) :
    ∃ events, (close f).client.trace = f.world.client.trace ++ events ∧
      ∀ e ∈ events, e.GivesBack f.solver.identity := by
  refine ⟨_, rfl, ?_⟩
  intro e he
  simp only [List.mem_append, List.mem_singleton] at he
  rcases he with ((he | he) | he) | rfl
  · exact Bridge.dropEvents_givesBack _ _ _ e he
  · exact Bridge.dropEvents_givesBack _ _ _ e he
  · exact Bridge.discardEvents_givesBack _ _ e he
  · exact .closed

end SatClient
