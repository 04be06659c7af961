import SatClient.Proofs.Access

/-!
# What operations tell of codes

An operation goes on as long as the native calls that it makes succeed. The first that does not is the
last that it makes, and its code is what the operation fails with.

* `Tells`: the native calls of an operation, and why it stopped
* `Solver.Tell`, `Solver.Retell`: operations that tell of the codes of their calls, and that may tell again
  of one that was got before; `Solver.Retell.bind`
* **`tell_addClause`**, **`tell_solveUnder`**, …: each operation on a solver does
-/

namespace SatClient

variable {σ α β : Type} {N : Native σ}

/-! ## Calls and what is told of them -/

def Exchange.Succeeds (x : Exchange) : Prop := x.reply.code.isOk

/-- The failure of an operation that makes a native call without success. -/
def Exchange.failure (x : Exchange) : Failure := .callFailed x.call.entry.name x.reply.code

/-- Why an operation stopped, if it did. -/
def stopOf? : Except Stop α → Option Stop
  | .ok _ => none
  | .error e => some e

/-- The native calls of an operation, and why it stopped. Failures that may be told again are those for
which `recalls` holds. -/
inductive Tells (recalls : Failure → Prop) : List Exchange → Option Stop → Prop
  /-- All calls succeed, and if the operation stops it is for another reason. -/
  | passed {xs : List Exchange} {stop : Option Stop} (h : ∀ x ∈ xs, x.Succeeds)
      (hs : ∀ f c, stop ≠ some (.failure (.callFailed f c))) : Tells recalls xs stop
  /-- A call does not succeed. -/
  | refused {xs : List Exchange} {x : Exchange} (h : ∀ x ∈ xs, x.Succeeds) (hx : ¬ x.Succeeds) :
      Tells recalls (xs ++ [x]) (some (.failure x.failure))
  /-- A failure from before is told again. -/
  | recalled {xs : List Exchange} {e : Failure} (h : ∀ x ∈ xs, x.Succeeds) (he : recalls e) :
      Tells recalls xs (some (.failure e))
  /-- A call does not succeed, but a panic comes before that. -/
  | panicked {xs : List Exchange} {x : Exchange} {p : Payload} (h : ∀ x ∈ xs, x.Succeeds)
      (hx : ¬ x.Succeeds) : Tells recalls (xs ++ [x]) (some (.panic p))

namespace Tells

variable {recalls recalls' : Failure → Prop} {xs ys : List Exchange} {stop : Option Stop}

theorem mono (h : Tells recalls xs stop) (hr : ∀ e, recalls e → recalls' e) : Tells recalls' xs stop := by
  cases h with
  | passed h hs => exact .passed h hs
  | refused h hx => exact .refused h hx
  | recalled h he => exact .recalled h (hr _ he)
  | panicked h hx => exact .panicked h hx

/-- An operation that does not stop has made no call without success. -/
theorem succeeds (h : Tells recalls xs none) : ∀ x ∈ xs, x.Succeeds := by
  cases h with
  | passed h _ => exact h

/-- A failure with a code is that of the last call, unless it is told again. -/
theorem failed {operation : String} {c : Code}
    (h : Tells recalls xs (some (.failure (.callFailed operation c)))) :
    (∃ x, xs.getLast? = some x ∧ ¬ x.Succeeds ∧ x.failure = .callFailed operation c) ∨
      recalls (.callFailed operation c) := by
  cases h with
  | passed _ hs => exact absurd rfl (hs operation c)
  | @refused xs x _ hx => exact .inl ⟨x, List.getLast?_concat, hx, rfl⟩
  | recalled _ he => exact .inr he

/-- An answer that is not permitted is found only when all calls have succeeded. -/
theorem violated {v : Violation} (h : Tells recalls xs (some (.failure (.violation v)))) :
    ∀ x ∈ xs, x.Succeeds := by
  cases h with
  | passed h _ => exact h
  | recalled h _ => exact h

/-- A call without success is the last one, and what the operation tells of, unless it panics. -/
theorem last {x : Exchange} (h : Tells recalls xs stop) (hx : x ∈ xs) (hno : ¬ x.Succeeds) :
    (∃ earlier, xs = earlier ++ [x] ∧ ∀ y ∈ earlier, y.Succeeds) ∧
      (stop = some (.failure x.failure) ∨ ∃ p, stop = some (.panic p)) := by
  have hlast {ys : List Exchange} {y : Exchange} (hy : ∀ y ∈ ys, y.Succeeds) (hm : x ∈ ys ++ [y]) :
      x = y := by
    rcases List.mem_append.mp hm with hm | hm
    · exact absurd (hy x hm) hno
    · exact List.mem_singleton.mp hm
  cases h with
  | passed h _ => exact absurd (h x hx) hno
  | recalled h _ => exact absurd (h x hx) hno
  | @refused ys y h _ =>
    obtain rfl := hlast h hx
    exact ⟨⟨ys, rfl, h⟩, .inl rfl⟩
  | @panicked ys y p h _ =>
    obtain rfl := hlast h hx
    exact ⟨⟨ys, rfl, h⟩, .inr ⟨p, rfl⟩⟩

/-- What an operation goes on with after calls that have succeeded. -/
theorem prepend (h : Tells recalls xs stop) (hy : ∀ y ∈ ys, y.Succeeds) :
    Tells recalls (ys ++ xs) stop := by
  have hall {xs : List Exchange} (h : ∀ x ∈ xs, x.Succeeds) : ∀ x ∈ ys ++ xs, x.Succeeds :=
    List.forall_mem_append.mpr ⟨hy, h⟩
  cases h with
  | passed h hs => exact .passed (hall h) hs
  | refused h hx =>
    rw [← List.append_assoc]
    exact .refused (hall h) hx
  | recalled h he => exact .recalled (hall h) he
  | panicked h hx =>
    rw [← List.append_assoc]
    exact .panicked (hall h) hx

/-- An operation without a call, which does not tell of any. -/
theorem silent (hs : ∀ f c, stop ≠ some (.failure (.callFailed f c))) : Tells recalls [] stop :=
  .passed (fun _ hx => absurd hx List.not_mem_nil) hs

theorem nothing : Tells recalls [] none := .silent fun f c h => by cases h

variable {x : Exchange}

/-- One call, which succeeds. -/
theorem answered (hx : x.Succeeds) (hs : ∀ f c, stop ≠ some (.failure (.callFailed f c))) :
    Tells recalls [x] stop := by
  refine .passed (fun y hy => ?_) hs
  rw [List.mem_singleton.mp hy]
  exact hx

theorem done (hx : x.Succeeds) : Tells recalls [x] none := .answered hx fun f c h => by cases h

/-- One call, which does not succeed. -/
theorem denied (hx : ¬ x.Succeeds) : Tells recalls [x] (some (.failure x.failure)) := by
  have hnil : ∀ y ∈ ([] : List Exchange), y.Succeeds := fun _ hy => absurd hy List.not_mem_nil
  exact .refused hnil hx

/-- One call, and a panic, which comes before the code. -/
theorem raised {p : Payload} : Tells recalls [x] (some (.panic p)) := by
  by_cases hx : x.Succeeds
  · exact .answered hx fun f c h => by cases h
  · have hnil : ∀ y ∈ ([] : List Exchange), y.Succeeds := fun _ hy => absurd hy List.not_mem_nil
    exact .panicked hnil hx

end Tells

/-! ## Operations -/

/-- The exchange of a call. -/
def Focus.exchange (N : Native σ) (c : Call) (f : Focus σ) : Exchange :=
  ⟨some f.solver.identity, c, (f.call N c).1⟩

theorem Focus.call_exchanges (c : Call) (f : Focus σ) :
    exchanges (f.call N c).2.world.client.trace =
      exchanges f.world.client.trace ++ [f.exchange N c] := World.call_exchanges _ _ _ _

namespace Solver

/-- What has been done from a state tells of the codes of its calls. -/
def TellsFrom (recalls : Failure → Prop) (f : Focus σ) (r : Except Stop α × Focus σ) : Prop :=
  ∃ xs, exchanges r.2.world.client.trace = exchanges f.world.client.trace ++ xs ∧
    Tells recalls xs (stopOf? r.1)

/-- An operation that tells of the codes of its calls. -/
def Tell (x : Act (Focus σ) α) : Prop := ∀ f, TellsFrom (fun _ => False) f (x f)

/-- An operation that tells of them, and may tell again of the one that was got in a look for options. -/
def Retell (x : Act (Focus σ) α) : Prop :=
  ∀ f, TellsFrom (fun e => (x f).2.solver.options = some (.error e)) f (x f)

theorem Tell.retell {x : Act (Focus σ) α} (h : Tell x) : Retell x := by
  intro f
  obtain ⟨xs, ht, hx⟩ := h f
  exact ⟨xs, ht, hx.mono fun _ => False.elim⟩

/-- An operation goes on only if all calls have succeeded. -/
theorem Retell.bind {x : Act (Focus σ) α} {k : α → Act (Focus σ) β} (hx : Retell x)
    (hk : ∀ a, Retell (k a)) : Retell (x >>= k) := by
  intro f
  obtain ⟨xs, ht, hxs⟩ := hx f
  rw [Act.bind_apply]
  rcases hr : x f with ⟨e | a, f'⟩ <;> rw [hr] at ht hxs
  · exact ⟨xs, ht, hxs⟩
  · obtain ⟨ys, ht', hys⟩ := hk a f'
    refine ⟨xs ++ ys, ?_, hys.prepend hxs.succeeds⟩
    rw [ht', ht, List.append_assoc]

variable {recalls : Failure → Prop} {f f' : Focus σ}

theorem tells_quiet {r : Except Stop α × Focus σ}
    (ht : exchanges r.2.world.client.trace = exchanges f.world.client.trace)
    (hs : ∀ f c, stopOf? r.1 ≠ some (.failure (.callFailed f c))) : TellsFrom recalls f r :=
  ⟨[], ht.trans (List.append_nil _).symm, .silent hs⟩

/-- A code that is checked. -/
theorem tells_check {x : Exchange} {e : EntryPoint} (he : x.call.entry = e)
    (ht : exchanges f'.world.client.trace = exchanges f.world.client.trace ++ [x]) :
    TellsFrom recalls f (check e x.reply.code f') := by
  subst he
  rw [check_apply]
  split_ifs with hok
  · exact ⟨[x], ht, .done hok⟩
  · exact ⟨[x], (exchanges_note rfl).trans ht, .denied hok⟩

/-- The code of a call, which is checked when the reply has been put to use. -/
theorem tells_checked {c : Call} {g : Focus σ} (hg : exchanges g.world.client.trace =
      exchanges f.world.client.trace) (hc : exchanges f'.world.client.trace =
      exchanges (g.call N c).2.world.client.trace) :
    TellsFrom recalls f (check c.entry (g.call N c).1.code f') := by
  have ht : exchanges f'.world.client.trace = exchanges f.world.client.trace ++ [g.exchange N c] := by
    rw [hc, Focus.call_exchanges, hg]
  exact tells_check (x := g.exchange N c) rfl ht

/-! ## Clauses, solves and models -/

variable {L : Type} [Literal L]

theorem tell_addClause (given : Given L) (redundancy : Redundancy) :
    Tell (addClause N given redundancy) := by
  intro f
  rw [addClause_apply]
  rcases given.view f.solver.buffer with ⟨o | v, buffer⟩
  · exact tells_quiet rfl nofun
  · dsimp only
    split_ifs
    · let c : Call := .add f.solver.handle (some (Buffer.ofView v buffer))
        (Int32.ofNat v.natives.length) redundancy.native
      exact tells_checked (c := c) (exchanges_note rfl) rfl
    · exact tells_quiet rfl nofun

/-- A panic in the cell comes before the code. -/
theorem tells_conclude {x : Exchange} (he : x.call.entry = .solve)
    (ht : exchanges f'.world.client.trace = exchanges f.world.client.trace ++ [x]) :
    TellsFrom recalls f (conclude x.reply f') := by
  have hfail : x.failure = .callFailed EntryPoint.solve.name x.reply.code := by
    rw [Exchange.failure, he]
  rw [conclude_apply]
  cases f'.bridge.failure with
  | some p =>
    exact ⟨[x], (exchanges_note rfl).trans ((exchanges_note rfl).trans ht), .raised⟩
  | none =>
    dsimp only
    split_ifs with hok
    · exact ⟨[x], (exchanges_note rfl).trans ht, .done hok⟩
    · have h : Tells recalls [x] (some (.failure x.failure)) := .denied hok
      rw [hfail] at h
      exact ⟨[x], (exchanges_note rfl).trans ht, h⟩

theorem tell_solveUnder (given : Given L) : Tell (solveUnder N given) := by
  intro f
  rw [solveUnder_apply]
  rcases given.view f.solver.buffer with ⟨o | v, buffer⟩
  · exact tells_quiet rfl nofun
  · dsimp only
    split_ifs
    · let told := (f.withBuffer buffer).note [.notice (.solving v.natives.toList)]
      let c : Call :=
        .solve f.solver.handle (some (Buffer.ofView v buffer)) (Int32.ofNat v.natives.length)
      have hn : exchanges told.world.client.trace = exchanges f.world.client.trace := exchanges_note rfl
      have ht := told.call_exchanges (N := N) c
      rw [hn] at ht
      exact tells_conclude (x := told.exchange N c) rfl ht
    · exact tells_quiet rfl nofun

/-- A query of a literal, of which the answer may be one that is not permitted. -/
theorem tells_query {e : EntryPoint} {c : Call} (he : c.entry = e) (read : Except Failure α)
    (hr : ∀ f c, read ≠ .error (.callFailed f c)) :
    TellsFrom recalls f (if (f.call N c).1.code.isOk then (read.mapError .failure, (f.call N c).2)
      else (.error (.failure (.callFailed e.name (f.call N c).1.code)),
        (f.call N c).2.note [.notice (.returned e (f.call N c).1.code)])) := by
  subst he
  split_ifs with hok
  · refine ⟨[f.exchange N c], f.call_exchanges c, .answered hok fun g code hs => ?_⟩
    cases read with
    | ok a => cases hs
    | error e =>
      cases hs
      exact hr _ _ rfl
  · exact ⟨[f.exchange N c], (exchanges_note rfl).trans (f.call_exchanges c),
      .denied hok⟩

theorem tell_litValue (l : L) : Tell (litValue N l) := by
  intro f
  rw [litValue_apply]
  cases Literal.toNative l with
  | error o => exact tells_quiet rfl nofun
  | ok asked =>
    refine tells_query rfl _ fun g code h => ?_
    unfold valueOf at h
    split_ifs at h
    cases h

theorem tell_assumptionFailed (l : L) : Tell (assumptionFailed N l) := by
  intro f
  rw [assumptionFailed_apply]
  cases Literal.toNative l with
  | error o => exact tells_quiet rfl nofun
  | ok asked =>
    refine tells_query rfl _ fun g code h => ?_
    unfold failedOf at h
    split_ifs at h
    cases h

/-! ## Registration of closures -/

theorem settledTerminate_exchanges (closure : Option Closure) (f : Focus σ) :
    exchanges (settledTerminate closure f).world.client.trace = exchanges f.world.client.trace :=
  exchanges_note (exchanges_of_isNote fun e he =>
    (f.bridge.dropEvents_givesBack _ .terminate e he).isNote)

theorem settledExporter_exchanges (listener : Option Listener) (f : Focus σ) :
    exchanges (settledExporter listener f).world.client.trace = exchanges f.world.client.trace :=
  exchanges_note (exchanges_of_isNote fun e he =>
    (f.bridge.dropEvents_givesBack _ .exporter e he).isNote)

/-- A registration, after which a closure is kept or dropped. -/
theorem tells_enrolled {c : Call} {g kept dropped : Focus σ}
    (hg : exchanges g.world.client.trace = exchanges f.world.client.trace)
    (hk : exchanges kept.world.client.trace = exchanges (g.call N c).2.world.client.trace)
    (hd : exchanges dropped.world.client.trace = exchanges (g.call N c).2.world.client.trace) :
    TellsFrom recalls f (if (g.call N c).1.code.isOk then (.ok (), kept)
      else check c.entry (g.call N c).1.code dropped) := by
  split_ifs with hok
  · have ht : exchanges kept.world.client.trace = exchanges f.world.client.trace ++ [g.exchange N c] := by
      rw [hk, Focus.call_exchanges, hg]
    exact ⟨[g.exchange N c], ht, .done hok⟩
  · exact tells_checked hg hd

theorem tell_setTerminate (closure : Closure) : Tell (setTerminate N closure) := by
  intro f
  rw [setTerminate_apply]
  dsimp only
  split
  · refine tells_quiet ?_ nofun
    rw [settledTerminate_exchanges]
    exact (exchanges_note rfl).trans (exchanges_note rfl)
  · let c : Call := .setTerminate f.solver.handle (some f.solver.identity) (some .trampoline)
    refine tells_enrolled (c := c) (exchanges_note rfl) ?_ ?_
    · rw [settledTerminate_exchanges]
      exact exchanges_note rfl
    · refine (exchanges_note rfl).trans ?_
      rw [settledTerminate_exchanges]
      exact exchanges_note rfl

theorem tell_clearTerminate : Tell (clearTerminate N) := by
  intro f
  rw [clearTerminate_apply]
  let c : Call := .setTerminate f.solver.handle none none
  refine tells_checked (c := c) (g := f) rfl ?_
  rw [settledTerminate_exchanges]
  exact exchanges_note rfl

theorem tell_setExport (listener : Listener) (maxLength : Int32) :
    Tell (setExport N listener maxLength) := by
  intro f
  rw [setExport_apply]
  let c : Call := .setExport f.solver.handle (some f.solver.identity) maxLength (some .trampoline)
  refine tells_enrolled (c := c) (exchanges_note rfl) ?_ ?_
  · rw [settledExporter_exchanges]
    exact exchanges_note rfl
  · refine (exchanges_note rfl).trans ?_
    rw [settledExporter_exchanges]
    exact exchanges_note rfl

theorem tell_clearExport : Tell (clearExport N) := by
  intro f
  rw [clearExport_apply]
  let c : Call := .setExport f.solver.handle none 0 none
  refine tells_checked (c := c) (g := f) rfl ?_
  rw [settledExporter_exchanges]
  exact exchanges_note rfl

/-! ## Options -/

/-- The failure of a look is kept, and told again by whatever needs the options later. -/
theorem retell_discover : Retell (discover N) := by
  intro f
  rw [discover_apply]
  cases ho : f.solver.options with
  | some found =>
    cases found with
    | ok d => exact tells_quiet rfl nofun
    | error e =>
      exact ⟨[], (List.append_nil _).symm, .recalled (fun _ hx => absurd hx List.not_mem_nil) ho⟩
  | none =>
    let x := f.exchange N (.options f.solver.handle)
    have ht := f.call_exchanges (N := N) (.options f.solver.handle)
    dsimp only
    rw [lookForOptions_apply]
    dsimp only
    split_ifs with hok
    · exact ⟨[x], (exchanges_note rfl).trans ht, .done hok⟩
    · exact ⟨[x], (exchanges_note rfl).trans ht, .denied hok⟩

theorem tell_result (r : Except Failure α) (hr : ∀ f c, r ≠ .error (.callFailed f c)) :
    Tell (.orFail r : Act (Focus σ) α) := by
  intro f
  rw [orFail_apply]
  refine tells_quiet rfl fun g code h => ?_
  cases r with
  | ok a => cases h
  | error e =>
    cases h
    exact hr _ _ rfl

theorem retell_getOptions : Retell (getOptions N) :=
  retell_discover.bind fun d => (tell_result (.ok d.options) nofun).retell

theorem retell_hasOption (name : String) : Retell (hasOption N name) :=
  retell_discover.bind fun d => (tell_result (.ok (d.position? name).isSome) nofun).retell

theorem retell_getOption (name : String) : Retell (getOption N name) := by
  refine retell_discover.bind fun d => ?_
  cases d.find? name with
  | some o => exact (tell_result (.ok o) nofun).retell
  | none => exact (tell_result (.error (.unknownOption name)) nofun).retell

theorem tell_setDescribed (place : Descriptor) (name : String) (value index : Int64) :
    Tell (setDescribed N place name value index) := by
  intro f
  rw [setDescribed_apply]
  let c : Call := .setOption f.solver.handle (some place) value index
  exact tells_checked (c := c) (exchanges_note rfl) rfl

theorem tell_setFound (found : Option Descriptor) (name : String) (value index : Int64) :
    Tell (match found with
      | some place => setDescribed N place name value index
      | none => .fail (.unknownOption name)) := by
  cases found with
  | some place => exact tell_setDescribed place name value index
  | none => exact tell_result (.error (.unknownOption name)) nofun

theorem retell_setOption (option : SolverOption) (value index : Int64) :
    Retell (setOption N option value index) := by
  intro f
  rw [setOption_apply]
  exact (retell_discover.bind fun _ => (tell_setFound _ option.name value index).retell) f

theorem retell_setByName (name : String) (value index : Int64) :
    Retell (setByName N name value index) :=
  retell_discover.bind fun _ => (tell_setFound _ name value index).retell

/-- By induction on the settings, of which each is applied if those before it were applied with
success. -/
theorem retell_configure (settings : List Setting) : Retell (configure N settings) := by
  induction settings with
  | nil => exact fun f => tells_quiet rfl nofun
  | cons s rest ih =>
    have htell : Tell (tell (.applying s) : Act (Focus σ) Unit) :=
      fun f => tells_quiet (exchanges_note rfl) nofun
    exact htell.retell.bind fun _ => (retell_setByName s.name s.value s.index).bind fun _ => ih

end Solver

end SatClient
