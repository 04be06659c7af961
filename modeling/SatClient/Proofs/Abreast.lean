import SatClient.Proofs.Apart
import SatClient.Session.Step

/-!
# Operations abreast

An operation on a solver does the same in two worlds that agree about what belongs to the solver.

* `Focus.Near`, `Focus.Abreast`: a solver in two worlds, and what becomes of it
* `Solver.Abreast`: two operations that go abreast
* `Solver.Steady`: an operation goes abreast with itself; so does every operation of the library
-/

namespace SatClient

variable {σ τ ω ρ α β γ δ : Type} {N : Native σ} {A : N.Apart τ ω ρ} {p : Share}

/-! ## A solver in two worlds -/

/-- The solver of a share, in two worlds that agree about the share. -/
structure Focus.Near (A : N.Apart τ ω ρ) (p : Share) (f f' : Focus σ) : Prop where
  solver : f.solver = f'.solver
  identity : f.solver.identity = p.identity
  handle : f.solver.handle = p.handle
  world : World.Near A p f.world f'.world

structure Focus.Abreast (A : N.Apart τ ω ρ) (p : Share) (f f' g g' : Focus σ) : Prop where
  near : Near A p g g'
  world : World.Abreast A p f.world f'.world g.world g'.world

namespace Focus.Abreast

variable {f f' g g' k k' : Focus σ}

theorem refl (h : Near A p f f') : Abreast A p f f' f f' := ⟨h, .refl h.world⟩

theorem trans (h : Abreast A p f f' g g') (h' : Abreast A p g g' k k') : Abreast A p f f' k k' :=
  ⟨h'.near, h.world.trans h'.world⟩

/-- Only the worlds change. -/
theorem of_world (h : Near A p f f') {v v' : World σ}
    (hw : World.Abreast A p f.world f'.world v v') :
    Abreast A p f f' { f with world := v } { f' with world := v' } :=
  ⟨⟨h.solver, h.identity, h.handle, hw.near⟩, hw⟩

end Focus.Abreast

namespace Solver

/-- Two results that correspond; what stops them is the same. -/
def Agree (R : α → β → Prop) : Except Stop α → Except Stop β → Prop
  | .ok a, .ok b => R a b
  | .error e, .error e' => e = e'
  | _, _ => False

theorem Agree.eq {r r' : Except Stop α} (h : Agree Eq r r') : r = r' := by
  cases r <;> cases r' <;> first | exact congrArg _ h | exact h.elim

/-- Two operations do the same with the solver of a share, in worlds that agree about the share. -/
def Abreast (A : N.Apart τ ω ρ) (p : Share) (R : α → β → Prop) (x : Act (Focus σ) α)
    (x' : Act (Focus σ) β) : Prop :=
  ∀ f f', Focus.Near A p f f' →
    Agree R (x f).1 (x' f').1 ∧ Focus.Abreast A p f f' (x f).2 (x' f').2

/-- An operation does the same in worlds that agree. -/
def Steady (A : N.Apart τ ω ρ) (p : Share) (x : Act (Focus σ) α) : Prop := Abreast A p Eq x x

theorem Abreast.bind {R : α → β → Prop} {S : γ → δ → Prop} {x : Act (Focus σ) α}
    {x' : Act (Focus σ) β} {g : α → Act (Focus σ) γ} {g' : β → Act (Focus σ) δ}
    (hx : Abreast A p R x x') (hg : ∀ a b, R a b → Abreast A p S (g a) (g' b)) :
    Abreast A p S (x >>= g) (x' >>= g') := by
  intro f f' h
  obtain ⟨hr, hf⟩ := hx f f' h
  rw [Act.bind_apply, Act.bind_apply]
  rcases hxf : x f with ⟨e | a, f₁⟩ <;> rcases hxf' : x' f' with ⟨e' | b, f₁'⟩ <;>
    rw [hxf, hxf'] at hr hf
  · exact ⟨hr, hf⟩
  · exact hr.elim
  · exact hr.elim
  · obtain ⟨hr', hf'⟩ := hg a b hr f₁ f₁' hf.near
    exact ⟨hr', hf.trans hf'⟩

theorem Steady.bind {x : Act (Focus σ) α} {g : α → Act (Focus σ) β} (hx : Steady A p x)
    (hg : ∀ a, Steady A p (g a)) : Steady A p (x >>= g) := by
  refine Abreast.bind hx fun a b h => ?_
  cases h
  exact hg a

/-! ## What operations are made of -/

theorem steady_pure (a : α) : Steady A p (pure a) := fun _ _ h => ⟨rfl, .refl h⟩

theorem steady_stop (e : Stop) : Steady A p (.stop e : Act (Focus σ) α) := fun _ _ h => ⟨rfl, .refl h⟩

theorem steady_orPanic (r : Except Overflow α) : Steady A p (.orPanic r) := by
  cases r with
  | ok a => exact steady_pure a
  | error o => exact steady_stop _

theorem steady_orFail (r : Except Failure α) : Steady A p (.orFail r) := by
  cases r with
  | ok a => exact steady_pure a
  | error e => exact steady_stop _

theorem steady_record {events : List Event} (he : ∀ e ∈ events, e.Of p) : Steady A p (record events) :=
  fun _ _ h => ⟨rfl, .of_world h (World.abreast_note h.world he)⟩

theorem notice_of (n : Notice) : ∀ e ∈ [Event.notice n], e.Of p := by
  intro e he
  rw [List.mem_singleton.mp he]
  exact .owned p.self (.inl rfl) rfl

theorem steady_tell (n : Notice) : Steady A p (tell n) := steady_record (notice_of n)

theorem steady_check (e : EntryPoint) (code : Code) : Steady A p (check e code) := by
  intro f f' h
  unfold check World.check
  split_ifs
  · exact ⟨rfl, .refl h⟩
  · exact ⟨rfl, .of_world h (World.abreast_note h.world (notice_of (.returned e code)))⟩

/-- The operation goes on with the solver of the share. -/
theorem steady_current {g : Solver → Act (Focus σ) α}
    (hg : ∀ s, s.identity = p.identity → s.handle = p.handle → Steady A p (g s)) :
    Steady A p (current >>= g) := by
  intro f f' h
  have hnext := hg f.solver h.identity h.handle f f' h
  have hf' : (current >>= g) f' = g f.solver f' := by rw [h.solver]; rfl
  rw [hf']
  exact hnext

theorem steady_update {g : Solver → Solver}
    (hg : ∀ s, (g s).identity = s.identity ∧ (g s).handle = s.handle) : Steady A p (update g) := by
  intro f f' h
  refine ⟨rfl, ⟨congrArg g h.solver, ?_, ?_, h.world⟩, .refl h.world⟩
  · exact (hg f.solver).1.trans h.identity
  · exact (hg f.solver).2.trans h.handle

theorem steady_ownBridge : Steady A p (ownBridge (σ := σ)) := by
  intro f f' h
  refine ⟨?_, .refl h⟩
  show f.world.client.bridge f.solver.identity = f'.world.client.bridge f'.solver.identity
  rw [← h.solver, h.identity, Client.bridge, Client.bridge, h.world.client.bridges _ p.self]

theorem steady_setBridge {i : Nat} (hi : p.owns i) (b : Bridge) :
    Steady A p (around (.change fun w : World σ => { w with client := w.client.setBridge i b })) :=
  fun _ _ h => ⟨rfl, .of_world h (.of_client h.world (Client.abreast_setBridge h.world.client hi b))⟩

theorem steady_changeBridge {g : Nat → Bridge → Bridge × List Event}
    (hg : ∀ b, ∀ e ∈ (g p.identity b).2, e.Of p) : Steady A p (changeBridge (σ := σ) g) := by
  refine steady_current fun s hi _ => steady_ownBridge.bind fun b => ?_
  rw [hi]
  exact (steady_setBridge p.self _).bind fun _ => steady_record (hg b)

theorem givesBack_of {e : Event} (h : e.GivesBack p.identity) : e.Of p := by
  refine .owned p.self (.inr h.owner?) ?_
  cases h <;> rfl

theorem dropEvents_of (b : Bridge) (slot : Slot) : ∀ e ∈ b.dropEvents p.identity slot, e.Of p :=
  fun e he => givesBack_of (Bridge.dropEvents_givesBack _ b slot e he)

/-- A call is answered in the same way, but for tables that describe nothing. -/
theorem abreast_invoke {c : Call} (hc : c.handle? = some p.handle)
    (hr : ∀ j callback, c.registration? = some (some j, some callback) → j = p.identity) :
    Abreast A p (fun r r' => r.trim = r'.trim) (invoke N c) (invoke N c) := by
  intro f f' h
  have hown (j : Nat) (callback : Callback)
      (hj : c.registration? = some (some j, some callback)) : p.owns j := hr j callback hj ▸ p.self
  have hself : p.owns f.solver.identity := h.identity ▸ p.self
  obtain ⟨hreply, hcall⟩ := World.call_abreast h.world hself (f.solver.symbols c.entry) hc hown
  have hf' : invoke N c f' = (.ok (f'.world.call N (some f.solver.identity) (f.solver.symbols c.entry) c).1,
      { f' with world := (f'.world.call N (some f.solver.identity) (f.solver.symbols c.entry) c).2 }) := by
    rw [h.solver]
    rfl
  rw [hf']
  exact ⟨hreply, .of_world h hcall⟩

/-- An operation that looks at no table in the reply. -/
theorem steady_invoke {c : Call} (hc : c.handle? = some p.handle)
    (hr : ∀ j callback, c.registration? = some (some j, some callback) → j = p.identity)
    {g : Reply → Act (Focus σ) α} (hg : ∀ r, Steady A p (g r)) (htrim : ∀ r, g r.trim = g r) :
    Steady A p (invoke N c >>= g) := by
  refine (abreast_invoke hc hr).bind fun r r' h => ?_
  rw [← htrim r, ← htrim r', h]
  exact hg _

/-! ## Clauses, solves and models -/

section Literals

variable {L : Type} [Literal L]

theorem steady_prepare (given : Given L) : Steady A p (prepare given) := by
  refine steady_current fun s _ _ => ?_
  rcases given.view s.buffer with ⟨view, buffer⟩
  have hbuffer : Steady A p (update (σ := σ) fun s => { s with buffer }) := steady_update fun _ => ⟨rfl, rfl⟩
  exact hbuffer.bind fun _ => steady_orPanic view

theorem steady_nativeLength (v : View) : Steady A p (nativeLength v) := by
  unfold nativeLength
  dsimp only
  split_ifs
  · exact steady_pure _
  · exact steady_stop _

theorem steady_addClause (given : Given L) (redundancy : Redundancy) :
    Steady A p (addClause N given redundancy) := by
  refine (steady_prepare given).bind fun v => (steady_nativeLength v).bind fun length => ?_
  refine (steady_tell _).bind fun _ => steady_current fun s _ hh => ?_
  exact steady_invoke (by exact congrArg some hh) (by exact nofun) (fun r => steady_check _ _) fun _ => rfl

theorem steady_resume : Steady A p (resume (σ := σ)) := by
  refine steady_ownBridge.bind fun b => ?_
  cases b.failure with
  | none => exact steady_pure _
  | some payload =>
    refine (steady_changeBridge fun b e he => ?_).bind fun _ => (steady_tell _).bind fun _ => steady_stop _
    rw [List.mem_singleton.mp he]
    exact .owned p.self (.inr rfl) rfl

theorem steady_solveUnder (given : Given L) : Steady A p (solveUnder N given) := by
  refine (steady_prepare given).bind fun v => (steady_nativeLength v).bind fun length => ?_
  refine (steady_tell _).bind fun _ => steady_current fun s _ hh => ?_
  refine steady_invoke (by exact congrArg some hh) (by exact nofun) (fun r => ?_) fun _ => rfl
  refine steady_resume.bind fun _ => (steady_check _ _).bind fun _ => ?_
  exact (steady_tell _).bind fun _ => steady_pure _

theorem steady_litValue (l : L) : Steady A p (litValue N l) := by
  refine (steady_orPanic _).bind fun asked => steady_current fun s _ hh => ?_
  exact steady_invoke (by exact congrArg some hh) (by exact nofun)
    (fun r => (steady_check _ _).bind fun _ => steady_orFail _) fun _ => rfl

theorem steady_assumptionFailed (l : L) : Steady A p (assumptionFailed N l) := by
  refine (steady_orPanic _).bind fun asked => steady_current fun s _ hh => ?_
  exact steady_invoke (by exact congrArg some hh) (by exact nofun)
    (fun r => (steady_check _ _).bind fun _ => steady_orFail _) fun _ => rfl

end Literals

theorem steady_solve : Steady A p (solve N) := steady_solveUnder _

theorem steady_addLits (lits : Lits) (redundancy : Redundancy) :
    Steady A p (addLits N lits redundancy) := by
  cases lits <;> exact steady_addClause _ redundancy

theorem steady_solveLits (lits : Lits) : Steady A p (solveLits N lits) := by
  cases lits <;> exact steady_solveUnder _

theorem steady_valueOfLit (lit : Lit) : Steady A p (valueOfLit N lit) := by
  cases lit <;> exact steady_litValue _

theorem steady_litFailed (lit : Lit) : Steady A p (litFailed N lit) := by
  cases lit <;> exact steady_assumptionFailed _

/-! ## Registration of closures -/

/-- A closure is taken or dropped by the solver. -/
theorem slot_event_of {e : Event} {i : Nat} (hi : i = p.identity) (ho : e.owner? = some i)
    (hc : e.called? = none) : ∀ e' ∈ [e], e'.Of p := by
  intro e' he
  rw [List.mem_singleton.mp he]
  exact .owned p.self (.inr (hi ▸ ho)) hc

theorem steady_settleTerminate (closure : Closure) (code : Code) :
    Steady A p (settleTerminate (σ := σ) closure code) := by
  refine (steady_changeBridge fun b => dropEvents_of b .terminate).bind fun _ =>
    steady_current fun s hi _ => ?_
  split_ifs
  · exact steady_pure _
  · exact steady_record (slot_event_of hi rfl rfl)

theorem steady_settleExporter (listener : Listener) (code : Code) :
    Steady A p (settleExporter (σ := σ) listener code) := by
  refine (steady_changeBridge fun b => dropEvents_of b .exporter).bind fun _ =>
    steady_current fun s hi _ => ?_
  split_ifs
  · exact steady_pure _
  · exact steady_record (slot_event_of hi rfl rfl)

theorem steady_setTerminate (closure : Closure) : Steady A p (setTerminate N closure) := by
  refine steady_current fun s hi hh => (steady_record (slot_event_of hi rfl rfl)).bind fun _ =>
    steady_ownBridge.bind fun b => ?_
  split_ifs
  · exact (steady_tell _).bind fun _ => steady_changeBridge fun b => dropEvents_of b .terminate
  · refine steady_invoke (by exact congrArg some hh) ?_ (fun r => ?_) fun _ => rfl
    · rintro j callback ⟨⟩
      exact hi
    · refine (steady_tell _).bind fun _ => (steady_settleTerminate _ _).bind fun _ => ?_
      exact steady_check _ _

theorem steady_clearTerminate : Steady A p (clearTerminate N) := by
  refine steady_current fun s _ hh => ?_
  refine steady_invoke (by exact congrArg some hh) (by exact nofun) (fun r => ?_) fun _ => rfl
  exact (steady_tell _).bind fun _ => (steady_changeBridge fun b => dropEvents_of b .terminate).bind
    fun _ => steady_check _ _

theorem steady_setExport (listener : Listener) (maxLength : Int32) :
    Steady A p (setExport N listener maxLength) := by
  refine steady_current fun s hi hh => (steady_record (slot_event_of hi rfl rfl)).bind fun _ => ?_
  refine steady_invoke (by exact congrArg some hh) ?_ (fun r => ?_) fun _ => rfl
  · rintro j callback ⟨⟩
    exact hi
  · refine (steady_tell _).bind fun _ => (steady_settleExporter _ _).bind fun _ => ?_
    exact steady_check _ _

theorem steady_clearExport : Steady A p (clearExport N) := by
  refine steady_current fun s _ hh => ?_
  refine steady_invoke (by exact congrArg some hh) (by exact nofun) (fun r => ?_) fun _ => rfl
  exact (steady_tell _).bind fun _ => (steady_changeBridge fun b => dropEvents_of b .exporter).bind
    fun _ => steady_check _ _

/-! ## Options -/

theorem steady_keepOptions (found : Except Failure Discovered) :
    Steady A p (keepOptions (σ := σ) found) := steady_update fun _ => ⟨rfl, rfl⟩

theorem steady_lookForOptions : Steady A p (lookForOptions N) := by
  refine steady_current fun s _ hh => ?_
  refine steady_invoke (by exact congrArg some hh) (by exact nofun) (fun r => ?_) fun r => ?_
  · split_ifs
    · exact (steady_tell _).bind fun _ => (steady_keepOptions _).bind fun _ => steady_pure _
    · exact (steady_keepOptions _).bind fun _ => (steady_check _ _).bind fun _ => steady_pure _
  · rw [Discovered.ofTable_trim]
    rfl

theorem steady_discover : Steady A p (discover N) := by
  refine steady_current fun s _ _ => ?_
  cases s.options with
  | some found => exact steady_orFail _
  | none => exact steady_lookForOptions

theorem steady_getOptions : Steady A p (getOptions N) :=
  steady_discover.bind fun _ => steady_pure _

theorem steady_getOption (name : String) : Steady A p (getOption N name) := by
  refine steady_discover.bind fun d => ?_
  cases d.find? name with
  | some o => exact steady_pure o
  | none => exact steady_stop _

theorem steady_hasOption (name : String) : Steady A p (hasOption N name) :=
  steady_discover.bind fun _ => steady_pure _

theorem steady_setDescribed (descriptor : Descriptor) (name : String) (value index : Int64) :
    Steady A p (setDescribed N descriptor name value index) := by
  refine (steady_tell _).bind fun _ => steady_current fun s _ hh => ?_
  exact steady_invoke (by exact congrArg some hh) (by exact nofun) (fun r => steady_check _ _) fun _ => rfl

theorem steady_setFound (found : Option Descriptor) (name : String) (value index : Int64) :
    Steady A p (match found with
      | some descriptor => setDescribed N descriptor name value index
      | none => .fail (.unknownOption name)) := by
  cases found with
  | none => exact steady_stop _
  | some descriptor => exact steady_setDescribed descriptor name value index

theorem steady_setOption (option : SolverOption) (value index : Int64) :
    Steady A p (setOption N option value index) :=
  steady_current fun _ _ _ => steady_discover.bind fun _ => steady_setFound _ option.name value index

theorem steady_setByName (name : String) (value index : Int64) :
    Steady A p (setByName N name value index) :=
  steady_discover.bind fun _ => steady_setFound _ name value index

/-- By induction on the settings. -/
theorem steady_configure (settings : List Setting) : Steady A p (configure N settings) := by
  induction settings with
  | nil => exact steady_pure ()
  | cons s rest ih =>
    exact (steady_tell _).bind fun _ => (steady_setByName s.name s.value s.index).bind fun _ => ih

/-! ## The end of a solver -/

theorem steady_releaseNative : Steady A p (releaseNative N) := by
  refine steady_current fun s _ hh => ?_
  refine steady_invoke (by exact congrArg some hh) (by exact nofun) (fun r => ?_) fun _ => rfl
  exact (steady_tell _).bind fun _ => steady_check _ _

theorem steady_dropNative : Steady A p (dropNative N) := by
  refine steady_current fun s _ hh => ?_
  exact steady_invoke (by exact congrArg some hh) (by exact nofun) (fun r => steady_tell _) fun _ => rfl

/-- The bridge that goes with a solver is of its share. -/
theorem close_abreast {f f' : Focus σ} (h : Focus.Near A p f f') :
    World.Abreast A p f.world f'.world (close f) (close f') := by
  let b := f.world.client.bridge p.identity
  have hb : f'.world.client.bridge p.identity = b := by
    rw [Client.bridge, ← h.world.client.bridges _ p.self]
    rfl
  have herase := Client.abreast_erase h.world.client p.self
  have hof : ∀ e ∈ b.dropEvents p.identity .terminate ++ b.dropEvents p.identity .exporter ++
      b.discardEvents p.identity ++ [.closed p.identity], e.Of p := by
    intro e he
    simp only [List.mem_append, List.mem_singleton] at he
    rcases he with ((he | he) | he) | rfl
    · exact dropEvents_of b _ e he
    · exact dropEvents_of b _ e he
    · exact givesBack_of (Bridge.discardEvents_givesBack _ b e he)
    · exact givesBack_of .closed
  unfold close
  rw [← h.solver, h.identity]
  dsimp only
  rw [hb]
  exact .of_client h.world (herase.trans (Client.abreast_note herase.near rfl hof hof))

theorem release_abreast {f f' : Focus σ} (h : Focus.Near A p f f') :
    (release N f).1 = (release N f').1 ∧
      World.Abreast A p f.world f'.world (release N f).2 (release N f').2 := by
  obtain ⟨hr, hf⟩ := steady_releaseNative f f' h
  exact ⟨hr.eq, hf.world.trans (close_abreast hf.near)⟩

theorem drop_abreast {f f' : Focus σ} (h : Focus.Near A p f f') :
    World.Abreast A p f.world f'.world (drop N f) (drop N f') := by
  obtain ⟨-, hf⟩ := steady_dropNative f f' h
  exact hf.world.trans (close_abreast hf.near)

end Solver
end SatClient
