import SatClient.Proofs.Roster

/-!
# Access to the options

An operation that needs the options of a solver has the native solver asked for them, unless they are
known already. In any case they are known afterwards.

* `exchanges`, `looks`: the native calls that have returned, and those which look for options
* `Reply.found`: what is found by a look
* `Solver.Retains`: what an operation does that needs no options
* `Solver.Accesses`, `Solver.discover_accesses`: what an operation does that needs them
* `Solver.Reads`, `Solver.Sets`: what else it does with them
-/

namespace SatClient

variable {σ α : Type} {N : Native σ} {es es' : List EntryPoint} {i : Nat}

/-! ## Exchanges -/

/-- A native call that has returned. -/
structure Exchange where
  owner : Option Nat
  call : Call
  reply : Reply

def Event.exchange? : Event → Option Exchange
  | returned owner call reply => some ⟨owner, call, reply⟩
  | _ => none

theorem Event.owner?_of_exchange? {e : Event} {x : Exchange} (h : e.exchange? = some x) :
    e.owner? = x.owner := by
  cases e with
  | returned owner c reply =>
    cases h
    rfl
  | _ => cases h

def exchanges (trace : List Event) : List Exchange := trace.filterMap Event.exchange?

@[simp] theorem exchanges_append (l l' : List Event) :
    exchanges (l ++ l') = exchanges l ++ exchanges l' := List.filterMap_append

theorem exchanges_of_isNote {events : List Event} (h : ∀ e ∈ events, e.IsNote) : exchanges events = [] := by
  refine List.filterMap_eq_nil_iff.mpr fun e he => ?_
  have := h e he
  cases e <;> first | rfl | cases this

theorem exchanges_note {trace events : List Event} (h : exchanges events = []) :
    exchanges (trace ++ events) = exchanges trace := by
  rw [exchanges_append, h, List.append_nil]

/-- The calls that have returned are those of the exchanges. -/
theorem callsReturned_eq (trace : List Event) :
    callsReturned trace = (exchanges trace).map fun x => (x.owner, x.call) := by
  induction trace with
  | nil => rfl
  | cons e rest ih =>
    simp only [callsReturned, exchanges, List.filterMap_cons] at ih ⊢
    cases e with
    | returned owner c reply => exact congrArg ((owner, c) :: ·) ih
    | _ => exact ih

theorem World.call_exchanges (owner : Option Nat) (a : Address) (c : Call) (w : World σ) :
    exchanges (w.call N owner a c).2.client.trace =
      exchanges w.client.trace ++ [⟨owner, c, (w.call N owner a c).1⟩] := by
  obtain ⟨events, ht, hv⟩ := World.call_events N owner a c w
  have hn : exchanges events = [] := exchanges_of_isNote fun e he => (hv e he).isNote
  rw [ht, exchanges_append, exchanges_append, exchanges_append, hn]
  rfl

theorem entry_mem_of_allowed {events : List Event} (h : ∀ e ∈ events, e.Allowed es) :
    ∀ x ∈ exchanges events, x.call.entry ∈ es := by
  intro x hx
  obtain ⟨e, he, hex⟩ := List.mem_filterMap.mp hx
  have ha := h e he
  cases e with
  | returned owner c reply =>
    cases hex
    exact ha
  | _ => cases hex

/-- The replies to the looks of the solver `i` for its options. -/
def looks (i : Nat) (xs : List Exchange) : List Reply :=
  xs.filterMap fun x => if x.owner = some i ∧ x.call.entry = .options then some x.reply else none

theorem looks_append (xs ys : List Exchange) : looks i (xs ++ ys) = looks i xs ++ looks i ys :=
  List.filterMap_append

theorem looks_eq_nil {xs : List Exchange}
    (h : ∀ x ∈ xs, x.owner = some i → x.call.entry ≠ .options) : looks i xs = [] :=
  List.filterMap_eq_nil_iff.mpr fun x hx => if_neg fun hi => h x hx hi.1 hi.2

/-- The exchange in which a solver looks for its options. -/
def Solver.look (x : Solver) (reply : Reply) : Exchange := ⟨some x.identity, .options x.handle, reply⟩

theorem looks_map (x : Solver) (looked : List Reply) :
    looks i (looked.map x.look) = if i = x.identity then looked else [] := by
  induction looked with
  | nil => simp [looks]
  | cons reply rest ih =>
    rw [List.map_cons, looks, List.filterMap_cons, ← looks, ih]
    by_cases hi : i = x.identity
    · rw [if_pos hi, if_pos hi, if_pos ⟨congrArg some hi.symm, rfl⟩]
      rfl
    · rw [if_neg hi, if_neg hi, if_neg fun h => hi (Option.some.inj h.1).symm]

/-- What a solver finds with the reply to its look for options. -/
def Reply.found (owner : Nat) (r : Reply) : Except Failure Discovered :=
  if r.code.isOk then .ok (.ofTable owner r.table)
  else .error (.callFailed EntryPoint.options.name r.code)

/-- The option with a name, which there may not be. -/
def Discovered.named (name : String) (d : Discovered) : Except Failure SolverOption :=
  match d.find? name with
  | some o => .ok o
  | none => .error (.unknownOption name)

/-! ## Operations -/

namespace Solver

/-- Between two states of an operation the options stay, and the native solver is called through the
functions in `es` only. -/
structure Retains (es : List EntryPoint) (f f' : Focus σ) : Prop where
  identity : f'.solver.identity = f.solver.identity
  handle : f'.solver.handle = f.solver.handle
  options : f'.solver.options = f.solver.options
  calls : ∃ xs, exchanges f'.world.client.trace = exchanges f.world.client.trace ++ xs ∧
    ∀ x ∈ xs, x.owner = some f.solver.identity ∧ x.call.entry ∈ es

namespace Retains

variable {f f' f'' : Focus σ}

theorem quiet (hs : f'.solver.identity = f.solver.identity ∧ f'.solver.handle = f.solver.handle ∧
      f'.solver.options = f.solver.options)
    (h : exchanges f'.world.client.trace = exchanges f.world.client.trace) : Retains es f f' :=
  ⟨hs.1, hs.2.1, hs.2.2, [], by rw [h, List.append_nil], fun _ hx => absurd hx List.not_mem_nil⟩

theorem refl (f : Focus σ) : Retains es f f := .quiet ⟨rfl, rfl, rfl⟩ rfl

theorem trans (h : Retains es f f') (h' : Retains es f' f'') : Retains es f f'' := by
  obtain ⟨hi, hh, ho, xs, ht, hx⟩ := h
  obtain ⟨hi', hh', ho', xs', ht', hx'⟩ := h'
  refine ⟨hi'.trans hi, hh'.trans hh, ho'.trans ho, xs ++ xs', by rw [ht', ht, List.append_assoc], ?_⟩
  intro x hm
  rcases List.mem_append.mp hm with hm | hm
  · exact hx x hm
  · exact hi ▸ hx' x hm

theorem note {events : List Event} (h : exchanges events = []) (f : Focus σ) :
    Retains es f (f.note events) := .quiet ⟨rfl, rfl, rfl⟩ (exchanges_note h)

end Retains

theorem Move.retains {f f' : Focus σ} (h : Move N es f f') (ho : .options ∉ es) : Retains es f f' := by
  have hback (slot : Slot) : exchanges (f.bridge.dropEvents f.solver.identity slot) = [] :=
    exchanges_of_isNote fun e he => (f.bridge.dropEvents_givesBack _ slot e he).isNote
  cases h with
  | tell n => exact .note rfl f
  | buffer b => exact .quiet ⟨rfl, rfl, rfl⟩ rfl
  | options he => exact absurd he ho
  | call he hc =>
    refine ⟨rfl, rfl, rfl, _, World.call_exchanges _ _ _ _, fun x hx => ?_⟩
    rw [List.mem_singleton.mp hx]
    exact ⟨rfl, he⟩
  | resume he hp => exact .quiet ⟨rfl, rfl, rfl⟩ (exchanges_note rfl)
  | take he => exact .note rfl f
  | drop he => exact .note rfl f
  | settleTerminate he => exact .quiet ⟨rfl, rfl, rfl⟩ (exchanges_note (hback .terminate))
  | settleExporter he => exact .quiet ⟨rfl, rfl, rfl⟩ (exchanges_note (hback .exporter))

theorem Moves.retains {f f' : Focus σ} (h : Moves N es f f') (ho : .options ∉ es) : Retains es f f' := by
  induction h with
  | refl => exact .refl f
  | tail _ hm ih => exact ih.trans (hm.retains ho)

/-- What is found by a solver that looks for its options unless they are known, with the replies to
that. -/
def Finds (x : Solver) (found : Except Failure Discovered) (looked : List Reply) : Prop :=
  (x.options = some found ∧ looked = []) ∨
    (x.options = none ∧ ∃ reply, found = reply.found x.identity ∧ looked = [reply])

/-- An operation that needs the options: they are looked for unless they are known, and then known.
Beside that the native solver is called through the functions in `es` only. -/
structure Accesses (es : List EntryPoint) (found : Except Failure Discovered) (looked : List Reply)
    (f f' : Focus σ) : Prop where
  identity : f'.solver.identity = f.solver.identity
  handle : f'.solver.handle = f.solver.handle
  options : f'.solver.options = some found
  finds : f.solver.Finds found looked
  calls : ∃ xs, exchanges f'.world.client.trace =
      exchanges f.world.client.trace ++ looked.map f.solver.look ++ xs ∧
    ∀ x ∈ xs, x.owner = some f.solver.identity ∧ x.call.entry ∈ es

namespace Accesses

variable {found : Except Failure Discovered} {looked : List Reply} {f f' f'' : Focus σ}

theorem mono (h : Accesses es found looked f f') (hs : es ⊆ es') : Accesses es' found looked f f' := by
  obtain ⟨xs, ht, hx⟩ := h.calls
  exact ⟨h.identity, h.handle, h.options, h.finds, xs, ht, fun x hm => ⟨(hx x hm).1, hs (hx x hm).2⟩⟩

theorem trans (h : Accesses es found looked f f') (h' : Retains es f' f'') :
    Accesses es found looked f f'' := by
  obtain ⟨xs, ht, hx⟩ := h.calls
  obtain ⟨xs', ht', hx'⟩ := h'.calls
  refine ⟨h'.identity.trans h.identity, h'.handle.trans h.handle, h'.options.trans h.options, h.finds,
    xs ++ xs', by rw [ht', ht, List.append_assoc], ?_⟩
  intro x hm
  rcases List.mem_append.mp hm with hm | hm
  · exact hx x hm
  · exact h.identity ▸ hx' x hm

theorem of_note {events : List Event} (hn : exchanges events = [])
    (h : Accesses es found looked (f.note events) f') : Accesses es found looked f f' := by
  obtain ⟨xs, ht, hx⟩ := h.calls
  refine ⟨h.identity, h.handle, h.options, h.finds, xs, ?_, hx⟩
  rw [ht]
  exact congrArg (· ++ looked.map f.solver.look ++ xs) (exchanges_note hn)

/-- Options that are known are not looked for. -/
theorem retains (h : Accesses es found looked f f') (hk : f.solver.options.isSome) : Retains es f f' := by
  rcases h.finds with ⟨ho, hl⟩ | ⟨ho, -⟩
  · obtain ⟨xs, ht, hx⟩ := h.calls
    rw [hl, List.map_nil, List.append_nil] at ht
    exact ⟨h.identity, h.handle, h.options.trans ho.symm, xs, ht, hx⟩
  · rw [ho] at hk
    cases hk

end Accesses

theorem discover_accesses (f : Focus σ) :
    ∃ found looked, Accesses [] found looked f (discover N f).2 ∧
      (discover N f).1 = found.mapError .failure := by
  have hcall := World.call_exchanges (N := N) (some f.solver.identity)
    (f.solver.symbols (.options)) (.options f.solver.handle) f.world
  rw [discover_apply]
  cases ho : f.solver.options with
  | some found =>
    exact ⟨found, [], ⟨rfl, rfl, ho, .inl ⟨ho, rfl⟩, [], by simp, by simp⟩, rfl⟩
  | none =>
    let called := f.call N (.options f.solver.handle)
    let found := called.1.found f.solver.identity
    have hfinds : f.solver.Finds found [called.1] := .inr ⟨ho, called.1, rfl, rfl⟩
    have hlook : exchanges called.2.world.client.trace =
        exchanges f.world.client.trace ++ [called.1].map f.solver.look ++ [] :=
      hcall.trans (List.append_nil _).symm
    refine ⟨found, [called.1], ?_⟩
    rw [lookForOptions_apply]
    dsimp only
    split_ifs with hok
    · have hfound : found = .ok (.ofTable f.solver.identity called.1.table) := if_pos hok
      refine ⟨⟨rfl, rfl, congrArg some hfound.symm, hfinds, [], ?_, by simp⟩, ?_⟩
      · exact (exchanges_note rfl).trans hlook
      · rw [hfound]
        rfl
    · have hfound : found = .error (.callFailed EntryPoint.options.name called.1.code) := if_neg hok
      refine ⟨⟨rfl, rfl, congrArg some hfound.symm, hfinds, [], ?_, by simp⟩, ?_⟩
      · exact (exchanges_note rfl).trans hlook
      · rw [hfound]
        rfl

/-! ## Readers and setters -/

/-- An operation that does no more than read the options. -/
def Reads (x : Act (Focus σ) α) (read : Discovered → Except Failure α) : Prop :=
  ∀ f, ∃ found looked, Accesses [] found looked f (x f).2 ∧ (x f).1 = (found.bind read).mapError .failure

/-- An operation that sets options when they are known. -/
def Sets (x : Act (Focus σ) α) : Prop :=
  ∀ f, ∃ found looked, Accesses [.setOption] found looked f (x f).2 ∧
    ∀ e, found = .error e → (x f).1 = .error (.failure e) ∧ Accesses [] found looked f (x f).2

/-- An operation that begins with the options goes on where they are found, and fails otherwise. -/
theorem discovered_bind (k : Discovered → Act (Focus σ) α) (f : Focus σ) :
    ∃ found looked f', Accesses [] found looked f f' ∧ (discover N >>= k) f =
      match found with
      | .ok d => k d f'
      | .error e => (.error (.failure e), f') := by
  obtain ⟨found, looked, ha, hr⟩ := discover_accesses (N := N) f
  refine ⟨found, looked, (discover N f).2, ha, ?_⟩
  rw [Act.bind_apply]
  rcases h : discover N f with ⟨r, f'⟩
  rw [h] at hr
  have hr : r = found.mapError .failure := hr
  subst hr
  cases found <;> rfl

theorem reads_discovered {k : Discovered → Act (Focus σ) α} {read : Discovered → Except Failure α}
    (hk : ∀ d f, k d f = ((read d).mapError .failure, f)) : Reads (discover N >>= k) read := by
  intro f
  obtain ⟨found, looked, f', ha, hf⟩ := discovered_bind (N := N) k f
  refine ⟨found, looked, ?_⟩
  rw [hf]
  cases found with
  | error e => exact ⟨ha, rfl⟩
  | ok d =>
    dsimp only
    rw [hk]
    exact ⟨ha, rfl⟩

theorem sets_discovered {k : Discovered → Act (Focus σ) α}
    (hk : ∀ d f, Moves N [.setOption] f (k d f).2) : Sets (discover N >>= k) := by
  intro f
  obtain ⟨found, looked, f', ha, hf⟩ := discovered_bind (N := N) k f
  refine ⟨found, looked, ?_⟩
  rw [hf]
  cases found with
  | error e =>
    refine ⟨ha.mono (List.nil_subset _), ?_⟩
    rintro e' ⟨⟩
    exact ⟨rfl, ha⟩
  | ok d => exact ⟨(ha.mono (List.nil_subset _)).trans ((hk d f').retains (by decide)), nofun⟩

theorem reads_getOptions : Reads (getOptions N) fun d => .ok d.options :=
  reads_discovered fun _ _ => rfl

theorem reads_hasOption (name : String) :
    Reads (hasOption N name) fun d => .ok (d.position? name).isSome :=
  reads_discovered fun _ _ => rfl

theorem reads_getOption (name : String) : Reads (getOption N name) (Discovered.named name) := by
  refine reads_discovered fun d f => ?_
  unfold Discovered.named
  cases d.find? name <;> rfl

theorem sets_setOption (option : SolverOption) (value index : Int64) :
    Sets (setOption N option value index) := by
  intro f
  rw [setOption_apply]
  exact (sets_discovered fun d f => moves_setFound _ option.name value index f) f

theorem sets_setByName (name : String) (value index : Int64) : Sets (setByName N name value index) :=
  sets_discovered fun _ f => moves_setFound _ name value index f

/-- By induction on the settings. -/
theorem retains_configure (settings : List Setting) (f : Focus σ) (hk : f.solver.options.isSome) :
    Retains [.setOption] f (configure N settings f).2 := by
  induction settings generalizing f with
  | nil => exact .refl f
  | cons s rest ih =>
    let told := f.note [.notice (.applying s)]
    obtain ⟨found, looked, ha, -⟩ := sets_setByName (N := N) s.name s.value s.index told
    have hset : Retains [.setOption] f (setByName N s.name s.value s.index told).2 :=
      (Retains.note rfl f).trans (ha.retains hk)
    rw [configure_cons_apply, Act.bind_apply]
    rcases h : setByName N s.name s.value s.index told with ⟨e | u, f'⟩
    · rw [h] at hset
      exact hset
    · rw [h] at hset
      exact hset.trans (ih f' (by rw [hset.options]; exact hk))

/-- The first setting needs the options; for those after it they are known. -/
theorem sets_configure (s : Setting) (rest : List Setting) : Sets (configure N (s :: rest)) := by
  intro f
  let told := f.note [.notice (.applying s)]
  obtain ⟨found, looked, ha, hfail⟩ := sets_setByName (N := N) s.name s.value s.index told
  refine ⟨found, looked, ?_⟩
  rw [configure_cons_apply, Act.bind_apply]
  rcases h : setByName N s.name s.value s.index told with ⟨e | u, f'⟩
  · rw [h] at ha hfail
    refine ⟨ha.of_note rfl, fun e' he => ?_⟩
    obtain ⟨hr, ha'⟩ := hfail e' he
    exact ⟨congrArg _ (Except.error.inj hr), ha'.of_note rfl⟩
  · rw [h] at ha hfail
    refine ⟨(ha.of_note rfl).trans (retains_configure rest f' (by rw [ha.options]; rfl)), fun e he => ?_⟩
    cases (hfail e he).1

end Solver

end SatClient
