import SatClient.Proofs.Chronicle

/-!
# All that a call does to the mock

A call with the handle of an instance is the next one that is expected of it, or is for another function, or
is for that function but not as expected. Each time it is said in full what is answered and what has become
of the mock. All this holds of any mock, also of one that no test can bring about.

* `Dialogue.EndsWith`: what a dialogue ends with, given the answers to its polls
* `Mock.perform_endsWith`: the calls back of a solve
* `Mock.Expected.leaves`: what a call as expected leaves registered
* `Mock.Granted`: what is answered to a call as expected, and what it changes
* `Mock.Judged`: a call that was next, by whether it is as expected; `Mock.respondTaken_judged`
* `Mock.Next`, `Mock.drawn`: the next call that is expected, and the mock without it
* **`Mock.calls_answered_exactly`**: every call on an instance
-/

namespace SatClient

variable {α β : Type}

/-! ## The answers to polls -/

/-- Whatever is answered to its polls, a dialogue ends with a result as described. -/
def Dialogue.EndsWith (P : List Int32 → α → Prop) : Dialogue α → Prop
  | done a => P [] a
  | poll _ next => ∀ answer, (next answer).EndsWith fun answers => P (answer :: answers)
  | offer _ _ next => next.EndsWith P
  | unregistered _ next => next.EndsWith P

namespace Dialogue

variable {P Q : List Int32 → α → Prop} {d : Dialogue α}

theorem EndsWith.mono (h : d.EndsWith P) (hPQ : ∀ answers a, P answers a → Q answers a) : d.EndsWith Q := by
  induction d generalizing P Q with
  | done a => exact hPQ _ _ h
  | poll hook next ih => exact fun answer => ih answer (h answer) fun answers a => hPQ (answer :: answers) a
  | offer hook memory next ih => exact ih h hPQ
  | unregistered slot next ih => exact ih h hPQ

theorem EndsWith.map {P : List Int32 → β → Prop} {f : α → β}
    (h : d.EndsWith fun answers a => P answers (f a)) : (d.map f).EndsWith P := by
  induction d generalizing P with
  | done a => exact h
  | poll hook next ih => exact fun answer => ih answer (h answer)
  | offer hook memory next ih => exact ih h
  | unregistered slot next ih => exact ih h

theorem Ends.endsWith {P : α → Prop} (h : d.Ends P) : d.EndsWith fun _ a => P a := by
  induction d with
  | done a => exact h
  | poll hook next ih => exact fun answer => ih answer (h answer)
  | offer hook memory next ih => exact ih h
  | unregistered slot next ih => exact ih h

theorem EndsWith.ends {R : α → Prop} (h : d.EndsWith P) (hPR : ∀ answers a, P answers a → R a) :
    d.Ends R := by
  induction d generalizing P with
  | done a => exact hPR _ _ h
  | poll hook next ih => exact fun answer => ih answer (h answer) fun answers a => hPR (answer :: answers) a
  | offer hook memory next ih => exact ih h hPR
  | unregistered slot next ih => exact ih h hPR

theorem EndsWith.and (h : d.EndsWith P) (h' : d.EndsWith Q) :
    d.EndsWith fun answers a => P answers a ∧ Q answers a := by
  induction d generalizing P Q with
  | done a => exact ⟨h, h'⟩
  | poll hook next ih => exact fun answer => ih answer (h answer) (h' answer)
  | offer hook memory next ih => exact ih h h'
  | unregistered slot next ih => exact ih h h'

end Dialogue

/-! ## Comparisons -/

namespace Mock

/-- Where an instance has something registered. -/
def posted (id : Nat) (m : Mock) (slot : Slot) : Bool := (m.registration slot id).isSome

/-- The next call that is expected of a live instance. -/
structure Awaits (id : Nat) (e : Expected) (rest : List Expected) (m : Mock) : Prop where
  live : (m.instanceOf id).released = false
  queue : (m.instanceOf id).expected = e :: rest

theorem exists_bind {x : Except Fault α} {g : α → Except Fault β} :
    (∃ b, x >>= g = .ok b) ↔ ∃ a, x = .ok a ∧ ∃ b, g a = .ok b := by
  constructor
  · rintro ⟨b, h⟩
    obtain ⟨a, ha, h⟩ := bind_ok h
    exact ⟨a, ha, b, h⟩
  · rintro ⟨a, rfl, h⟩
    exact h

theorem same_eq_ok {γ : Type} [DecidableEq γ] {a b : γ} {f : Fault} {u : Unit} :
    same a b f = .ok u ↔ a = b := by
  unfold same
  split_ifs with h <;> simp [h]

theorem literalsOf_eq_ok {e : EntryPoint} {buffer : Option Buffer} {length : Int32} {l : List Int32} :
    literalsOf e buffer length = .ok l ↔ Holds buffer length l := by
  unfold literalsOf Holds
  cases buffer with
  | none => simp
  | some b =>
    dsimp only
    split_ifs with h
    · simp [Int32.not_le.mpr h]
    · simp [Int32.not_lt.mp h]

/-- A callback is registered just if it is to be, and then one is registered. -/
theorem registered_eq_ok {e : EntryPoint} {registers : Bool} {returns : Code} {data : Option Nat}
    {callback : Option Callback} {before : Option Hook} :
    (∃ hook, registered e registers returns data callback before = .ok hook) ↔
      data.isSome = registers ∧ callback.isSome = registers := by
  cases registers <;> cases data <;> cases callback <;> simp [registered]

section Compare

variable {e : Expected} {c : Made}

/-- The calls back of a solve are all made just if each has a registration and each poll is answered as
expected. By induction on them. -/
theorem perform_endsWith {terminate exporter : Option Hook} {finish : Except Fault Unit → α}
    (posted : Slot → Bool) (ht : posted .terminate = terminate.isSome)
    (he : posted .exporter = exporter.isSome) (scenes : List Scene) :
    (perform terminate exporter finish scenes).EndsWith fun answers a =>
      ∃ outcome, a = finish outcome ∧ (outcome = .ok () ↔
        (∀ scene ∈ scenes, posted scene.slot = true) ∧
          answers.map (· != 0) = scenes.filterMap Scene.poll?) := by
  induction scenes with
  | nil => exact ⟨.ok (), rfl, by simp⟩
  | cons scene rest ih =>
    cases scene with
    | poll expect =>
      cases terminate with
      | none => exact ⟨_, rfl, by simp [Scene.slot, ht]⟩
      | some hook =>
        intro answer
        dsimp only
        split_ifs with hstop
        · refine ih.mono fun answers a => ?_
          rintro ⟨outcome, ha, ho⟩
          refine ⟨outcome, ha, ho.trans ?_⟩
          simp [Scene.slot, Scene.poll?, ht, hstop]
        · exact ⟨_, rfl, by simp [Scene.poll?, hstop]⟩
    | offer clause =>
      cases exporter with
      | none => exact ⟨_, rfl, by simp [Scene.slot, he]⟩
      | some hook =>
        refine Dialogue.EndsWith.mono ih fun answers a => ?_
        rintro ⟨outcome, ha, ho⟩
        refine ⟨outcome, ha, ho.trans ?_⟩
        simp [Scene.slot, he, List.filterMap_cons_none (show (Scene.offer clause).poll? = none from rfl)]

/-- A call that fits is for the function that is expected. -/
theorem Expected.Fits.entry {posted : Slot → Bool} (h : e.Fits posted c) :
    e.call.entry = c.call.entry := by
  obtain ⟨id, call, name, answers⟩ := c
  obtain ⟨expected, returns⟩ := e
  cases call <;> cases expected <;> first | rfl | exact h.elim

end Compare

end Mock

/-! ## A call as expected -/

/-- The callback that a call registers, if it registers one. -/
def Call.hook? (c : Call) : Option Hook :=
  match c.registration? with
  | some (some data, some callback) => some ⟨callback, data⟩
  | _ => none

namespace Mock

variable {id : Nat} {e : Expected} {rest : List Expected} {m : Mock} {c : Call} {answers : List Int32}

/-- What is written for the caller beside the options. -/
def Expectation.result? : Expectation → Option Int32
  | solve _ result _ | val _ result | failed _ result => some result
  | _ => none

/-- What is registered after a call as expected, given what was before. A callback is set whatever the call
returns, and is cleared only by a call that succeeds. -/
def Expected.leaves (e : Expected) (c : Call) (slot : Slot) (before : Option Hook) : Option Hook :=
  match e.call, slot with
  | .setTerminate registers, .terminate | .setExport registers _, .exporter =>
    if registers then c.hook? else if e.returns.isOk then none else before
  | _, _ => before

/-- A call as expected has been answered, and no fault is noted. -/
structure Granted (id : Nat) (e : Expected) (c : Call) (m : Mock) (r : Reply × Mock) : Prop where
  reply : r.1 = { code := e.returns, result := e.call.result?, table := r.1.table }
  table : r.1.table = if e.call = .options then
    (r.2.instanceOf id).table.map fun t => ⟨t, r.2.tables[t]?.getD []⟩ else none
  offered : e.call = .options → (r.2.instanceOf id).table.isSome
  faults : r.2.faults = m.faults
  instance_eq : r.2.instanceOf id = { m.instanceOf id with
    terminate := e.leaves c .terminate (m.instanceOf id).terminate
    exporter := e.leaves c .exporter (m.instanceOf id).exporter
    table := (r.2.instanceOf id).table }
  /-- A table that is made describes nothing, and is made only when the options are asked for. -/
  offers : r.2.offers id = m.offers id
  tables : e.call ≠ .options →
    r.2.tables = m.tables ∧ (r.2.instanceOf id).table = (m.instanceOf id).table
  touches : Touches id m r.2

/-- A call to the function that is next is as expected or it is not. -/
inductive Judged (id : Nat) (e : Expected) (c : Call) (answers : List Int32) (m : Mock) :
    Reply × Mock → Prop
  | granted {r : Reply × Mock} (h : e.Fits (m.posted id) ⟨some id, c, m.nameAt c.option?, answers⟩)
      (hr : Granted id e c m r) : Judged id e c answers m r
  | refused (h : ¬ e.Fits (m.posted id) ⟨some id, c, m.nameAt c.option?, answers⟩) (f : Fault) :
      Judged id e c answers m (m.refuse f)

theorem judged_of_except {x : Except Fault (Reply × Mock)}
    (hx : (∃ r, x = .ok r) ↔ e.Fits (m.posted id) ⟨some id, c, m.nameAt c.option?, answers⟩)
    (hr : ∀ r, x = .ok r → Granted id e c m r) : Judged id e c answers m (m.orRefuse x) := by
  cases x with
  | ok r => exact .granted (hx.mp ⟨r, rfl⟩) (hr r rfl)
  | error f =>
    refine .refused (fun h => ?_) f
    obtain ⟨r, hr⟩ := hx.mpr h
    cases hr

/-- Only a call to set or to clear a callback changes what is registered. -/
theorem Expected.leaves_of_entry (ht : e.call.entry ≠ .setTerminate) (he : e.call.entry ≠ .setExport)
    (slot : Slot) (before : Option Hook) : e.leaves c slot before = before := by
  obtain ⟨call, returns⟩ := e
  cases call <;> cases slot <;> first | rfl | exact absurd rfl ht | exact absurd rfl he

/-- Of what is left registered, only whether there is something matters to the calls that come after. -/
theorem Expected.leaves_isSome {posted : Slot → Bool} {made : Made} (h : e.Fits posted made) (slot : Slot)
    {before : Option Hook} (hb : posted slot = before.isSome) :
    (e.leaves made.call slot before).isSome = e.posts posted slot := by
  have hsome {c : Call} {data : Option Nat} {callback : Option Callback} {registers : Bool}
      (hc : c.registration? = some (data, callback)) (hd : data.isSome = registers)
      (hcb : callback.isSome = registers) :
      (if registers then c.hook? else if e.returns.isOk then none else before).isSome =
        (registers || (!e.returns.isOk && posted slot)) := by
    unfold Call.hook?
    rw [hc, hb, ← hd]
    rw [← hd] at hcb
    cases data <;> cases callback <;> simp at hcb ⊢
    cases e.returns.isOk <;> simp
  obtain ⟨id, c, name, answers⟩ := made
  obtain ⟨call, returns⟩ := e
  cases call <;> cases slot <;> first | exact hb.symm | skip
  all_goals
    cases c <;> first | exact h.elim | skip
  · exact hsome rfl h.1 h.2
  · exact hsome rfl h.2.1 h.2.2

/-- A call that only gives its answer. -/
theorem granted_self {x : Expectation} (hx : e.call = x) (ht : x.entry ≠ .setTerminate)
    (he : x.entry ≠ .setExport) (ho : x.entry ≠ .options) {reply : Reply}
    (hreply : reply = { code := e.returns, result := x.result? }) : Granted id e c m (reply, m) := by
  subst hx hreply
  have hno : e.call ≠ .options := fun h => ho (h ▸ rfl)
  refine ⟨rfl, (if_neg hno).symm, fun h => absurd h hno, rfl, ?_, rfl, fun _ => ⟨rfl, rfl⟩, .refl id m⟩
  rw [e.leaves_of_entry ht he, e.leaves_of_entry ht he]

/-- A call to set or to clear a callback. -/
theorem granted_registration {x : Expectation} (hx : e.call = x) (ho : x.entry ≠ .options)
    (hnone : x.result? = none) {f : Instance → Instance}
    (hf : f (m.instanceOf id) = { m.instanceOf id with
      terminate := e.leaves c .terminate (m.instanceOf id).terminate
      exporter := e.leaves c .exporter (m.instanceOf id).exporter })
    (hi : ∀ i, (f i).initialised = i.initialised) :
    Granted id e c m ({ code := e.returns }, m.change id f) := by
  subst hx
  have ho : e.call ≠ .options := fun h => ho (h ▸ rfl)
  have hof : (m.change id f).instanceOf id = f (m.instanceOf id) :=
    (instanceOf_change id id f m).trans (if_pos rfl)
  have htable : ((m.change id f).instanceOf id).table = (m.instanceOf id).table := by rw [hof, hf]
  have htouches : Touches id m (m.change id f) := .change f m hi
  refine ⟨by rw [hnone], (if_neg ho).symm, fun h => absurd h ho, rfl, ?_, ?_, fun _ => ⟨rfl, htable⟩,
    htouches⟩
  · rw [htable, hof, hf]
  · exact offers_of_extends htouches.tables htable

/-- What is registered by a call as expected. -/
theorem registered_leaves (c : Call) {entry : EntryPoint} {registers : Bool} {data : Option Nat}
    {callback : Option Callback} {before hook : Option Hook} (hc : c.registration? = some (data, callback))
    (h : registered entry registers e.returns data callback before = .ok hook) :
    hook = if registers then c.hook? else if e.returns.isOk then none else before := by
  unfold Call.hook?
  rw [hc]
  cases registers <;> cases data <;> cases callback <;> simp only [registered] at h <;> cases h
  · rfl
  · rfl

/-- The options are given, of which an empty table may have been made. -/
theorem granted_options (hcall : e.call = .options) :
    Granted id e c m ({ code := e.returns, table := some ⟨((m.tabled id).instanceOf id).table.getD 0,
      (m.tabled id).tables[((m.tabled id).instanceOf id).table.getD 0]?.getD []⟩ }, m.tabled id) := by
  obtain ⟨hsome, hfaults, hof, htouches⟩ : ((m.tabled id).instanceOf id).table.isSome ∧
      (m.tabled id).faults = m.faults ∧
      (m.tabled id).instanceOf id =
        { m.instanceOf id with table := ((m.tabled id).instanceOf id).table } ∧
      Touches id m (m.tabled id) := by
    unfold tabled
    split_ifs with ht
    · exact ⟨ht, rfl, rfl, .refl id m⟩
    · rw [addTable_instanceOf]
      exact ⟨rfl, rfl, rfl, .addTable m⟩
  refine ⟨?_, ?_, fun _ => hsome, hfaults, ?_, tabled_offers id m, fun h => absurd hcall h, htouches⟩
  · rw [hcall]
    rfl
  · obtain ⟨t, ht⟩ := Option.isSome_iff_exists.mp hsome
    rw [if_pos hcall, ht]
    rfl
  · have hentry : e.call.entry = .options := hcall ▸ rfl
    have hleaves := e.leaves_of_entry (c := c) (hentry ▸ nofun) (hentry ▸ nofun)
    rw [hleaves, hleaves]
    exact hof

/-- A call that has been taken from the queue is as expected or it is not. -/
theorem respondTaken_judged (id : Nat) (c : Call) (e : Expected) (m : Mock) :
    (respondTaken id c e m).EndsWith fun answers r => Judged id e c answers m r := by
  unfold respondTaken
  split
  -- a clause
  · rename_i hcall
    refine judged_of_except ?_ fun r hr => ?_
    · simp [Expected.Fits, hcall, exists_bind, same_eq_ok, literalsOf_eq_ok]
    · obtain ⟨_, -, hr⟩ := bind_ok hr
      obtain ⟨_, -, hr⟩ := bind_ok hr
      obtain ⟨_, -, hr⟩ := bind_ok hr
      cases hr
      exact granted_self hcall nofun nofun nofun rfl
  -- a solve, of which all calls back are made or the first is not as expected
  · rename_i hcall
    split
    · rename_i f hf
      refine .refused (fun hfit => ?_) f
      simp only [Expected.Fits, hcall] at hfit
      rw [literalsOf_eq_ok.mpr hfit.1] at hf
      cases hf.symm.trans ((same_eq_ok (u := ())).mpr rfl)
    · rename_i hok
      obtain ⟨actual, hactual, hsame⟩ := bind_ok hok
      cases same_eq_ok.mp hsame
      refine (perform_endsWith (m.posted id) rfl rfl _).mono fun answers r => ?_
      rintro ⟨outcome, rfl, houtcome⟩
      refine judged_of_except ?_ fun r hr => ?_
      · simp only [Expected.Fits, hcall, literalsOf_eq_ok.mp hactual, true_and, ← houtcome]
        cases outcome <;> simp [exists_bind]
      · obtain ⟨_, -, hr⟩ := bind_ok hr
        cases hr
        exact granted_self hcall nofun nofun nofun rfl
  -- a value
  · rename_i hcall
    refine judged_of_except ?_ fun r hr => ?_
    · simp [Expected.Fits, hcall, exists_bind, same_eq_ok]
    · obtain ⟨_, -, hr⟩ := bind_ok hr
      cases hr
      exact granted_self hcall nofun nofun nofun rfl
  -- a failed assumption
  · rename_i hcall
    refine judged_of_except ?_ fun r hr => ?_
    · simp [Expected.Fits, hcall, exists_bind, same_eq_ok]
    · obtain ⟨_, -, hr⟩ := bind_ok hr
      cases hr
      exact granted_self hcall nofun nofun nofun rfl
  -- the options
  · rename_i hcall
    exact .granted (by simp [Expected.Fits, hcall]) (granted_options hcall)
  -- an option
  · rename_i hcall
    refine judged_of_except ?_ fun r hr => ?_
    · simp [Expected.Fits, hcall, exists_bind, same_eq_ok, Call.option?]
    · obtain ⟨_, -, hr⟩ := bind_ok hr
      obtain ⟨_, -, hr⟩ := bind_ok hr
      obtain ⟨_, -, hr⟩ := bind_ok hr
      cases hr
      exact granted_self hcall nofun nofun nofun rfl
  -- registrations
  · rename_i handle data callback registers hcall
    refine judged_of_except ?_ fun r hr => ?_
    · simp [Expected.Fits, hcall, exists_bind, registered_eq_ok]
    · obtain ⟨hook, hhook, hr⟩ := bind_ok hr
      cases hr
      refine granted_registration hcall nofun rfl ?_ fun _ => rfl
      rw [registered_leaves (.setTerminate handle data callback) rfl hhook]
      simp only [Expected.leaves, hcall]
  · rename_i handle data length callback registers length' hcall
    refine judged_of_except ?_ fun r hr => ?_
    · simp [Expected.Fits, hcall, exists_bind, same_eq_ok, registered_eq_ok]
    · obtain ⟨_, -, hr⟩ := bind_ok hr
      obtain ⟨hook, hhook, hr⟩ := bind_ok hr
      cases hr
      refine granted_registration hcall nofun rfl ?_ fun _ => rfl
      rw [registered_leaves (.setExport handle data length callback) rfl hhook]
      simp only [Expected.leaves, hcall]
  -- another function
  · rename_i hno
    refine .refused (fun hfit => ?_) _
    unfold Expected.Fits at hfit
    split at hfit <;> grind

/-! ## The next call -/

/-- The queue of a live instance begins with a call to a function, and `rest` comes after it. -/
structure Next (entry : EntryPoint) (id : Nat) (e : Expected) (rest : List Expected) (m : Mock) : Prop where
  made : (m.instanceOf id).initialised = true
  awaits : m.Awaits id e rest
  entry : e.call.entry = entry

/-- The mock when the queue of an instance has been shortened. -/
def drawn (id : Nat) (rest : List Expected) (m : Mock) : Mock :=
  m.change id fun i => { i with expected := rest }

variable {entry : EntryPoint}

theorem live_of_not_made (h : (m.instanceOf id).initialised = false) : ∃ f, m.live id = .error f := by
  unfold live
  cases hi : m.instances.get? id with
  | none => exact ⟨_, rfl⟩
  | some i =>
    have hof : m.instanceOf id = i := by rw [instanceOf, hi, Option.getD_some]
    rw [hof] at h
    exact ⟨.notLive, by simp [h]⟩

/-- The call that is next is taken, and else there is a fault. -/
theorem take_next (entry : EntryPoint) (id : Nat) (m : Mock) :
    (∃ e rest, m.Next entry id e rest ∧ m.take entry id = .ok (e, m.drawn id rest)) ∨
      (∃ f, m.take entry id = .error f) ∧ ∀ e rest, ¬ m.Next entry id e rest := by
  unfold take
  cases hi : (m.instanceOf id).initialised with
  | false =>
    obtain ⟨f, hf⟩ := live_of_not_made hi
    rw [hf]
    exact .inr ⟨⟨f, rfl⟩, fun e rest h => absurd (hi.symm.trans h.made) nofun⟩
  | true =>
    rw [live_of_made hi]
    split_ifs with hr
    · exact .inr ⟨⟨_, rfl⟩, fun e rest h => absurd (h.awaits.live.symm.trans hr) nofun⟩
    · simp only [bind, Except.bind]
      cases hq : (m.instanceOf id).expected with
      | nil => exact .inr ⟨⟨_, rfl⟩, fun e rest h => absurd (hq.symm.trans h.awaits.queue) nofun⟩
      | cons e rest =>
        dsimp only
        split_ifs with he
        · exact .inl ⟨e, rest, ⟨hi, ⟨Bool.not_eq_true _ ▸ hr, hq⟩, he⟩, rfl⟩
        · refine .inr ⟨⟨_, rfl⟩, fun e' rest' h => ?_⟩
          cases hq.symm.trans h.awaits.queue
          exact he h.entry

theorem Next.unique (h : m.Next entry id e rest) {e' : Expected} {rest' : List Expected}
    (h' : m.Next entry id e' rest') : e' = e ∧ rest' = rest :=
  (List.cons.inj (h'.awaits.queue.symm.trans h.awaits.queue))

theorem drawn_instanceOf (id : Nat) (rest : List Expected) (m : Mock) :
    (m.drawn id rest).instanceOf id = { m.instanceOf id with expected := rest } :=
  (instanceOf_change id id _ m).trans (if_pos rfl)

theorem drawn_posted (id : Nat) (rest : List Expected) (m : Mock) :
    (m.drawn id rest).posted id = m.posted id := by
  funext slot
  rw [posted, posted, registration, registration, drawn_instanceOf]
  cases slot <;> rfl

/-! ## Every call on an instance -/

/-- A call is not the next one and is refused; or it is taken from the queue, and is judged then. -/
theorem respondInstance_judged (id : Nat) {c : Call} (hc : c.entry ≠ .release) (m : Mock) :
    ((∀ e rest, ¬ m.Next c.entry id e rest) → ∃ f, m.respondInstance id c = .done (m.refuse f)) ∧
      ∀ e rest, m.Next c.entry id e rest →
        (m.respondInstance id c).EndsWith fun answers r => Judged id e c answers (m.drawn id rest) r := by
  unfold respondInstance
  split
  · exact absurd rfl hc
  rcases take_next c.entry id m with ⟨e, rest, hnext, htake⟩ | ⟨⟨f, htake⟩, hno⟩
  · rw [htake]
    refine ⟨fun hno => absurd hnext (hno e rest), fun e' rest' h => ?_⟩
    obtain ⟨rfl, rfl⟩ := hnext.unique h
    exact respondTaken_judged id c e' _
  · rw [htake]
    exact ⟨fun _ => ⟨f, rfl⟩, fun e rest h => absurd h (hno e rest)⟩

/-- A call with the handle of an instance is a call on that instance, on whatever thread it is made. -/
theorem respond_of_instanceAt {h : Handle} (hc : c.handle? = some h) (hi : m.instanceAt h = some id)
    (onThread : Bool) : m.respond onThread c = m.respondInstance id c := by
  cases h with
  | zero => cases hi
  | succ k => rw [respond_handle hc, show m.handles[k]? = some id from hi]

/-- A release passes just if the instance is live and nothing more is expected of it. -/
theorem respondRelease_cases (id : Nat) (m : Mock) :
    ((m.instanceOf id).initialised = true ∧ (m.instanceOf id).released = false ∧
        (m.instanceOf id).expected = []) ∧
      m.respondRelease id =
        ({}, m.change id fun i => { i with released := true, terminate := none, exporter := none }) ∨
    ¬ ((m.instanceOf id).initialised = true ∧ (m.instanceOf id).released = false ∧
        (m.instanceOf id).expected = []) ∧ ∃ f, m.respondRelease id = m.refuse f := by
  unfold respondRelease
  cases hi : (m.instanceOf id).initialised with
  | false =>
    obtain ⟨f, hf⟩ := live_of_not_made hi
    refine .inr ⟨nofun, ?_⟩
    rw [hf]
    cases f <;> exact ⟨_, rfl⟩
  | true =>
    rw [live_of_made hi]
    split_ifs with hr
    · exact .inr ⟨fun h => absurd (h.2.1.symm.trans hr) nofun, _, rfl⟩
    · dsimp only
      split_ifs with hq
      · exact .inl ⟨⟨rfl, Bool.not_eq_true _ ▸ hr, List.isEmpty_iff.mp hq⟩, rfl⟩
      · exact .inr ⟨fun h => hq (List.isEmpty_iff.mpr h.2.2), _, rfl⟩

/-- **Every call on an instance, exactly.** A call which is not the next one expected of a live instance is
refused: one fault is noted, no callback is made, nothing is written, and nothing else is changed. A call to
the function that is next is taken from the queue. Whatever its polls are answered, if it is not as expected
one fault is noted, nothing is written and nothing else is changed; if it is, no fault is noted, and what it
writes, returns and leaves registered is what was expected. A release that fails notes one fault and
changes nothing else.

No call changes another instance, or what is said of the next init and of the signature. -/
theorem calls_answered_exactly (m : Mock) (onThread : Bool) (c : Call) (h : Handle) (id : Nat)
    (hc : c.handle? = some h) (hi : m.instanceAt h = some id) :
    (c.entry ≠ .release →
      ((∀ e rest, ¬ m.Next c.entry id e rest) →
        ∃ f, m.respond onThread c = .done ({ code := .unexplained }, m.fault f)) ∧
      ∀ e rest, m.Next c.entry id e rest → (m.respond onThread c).EndsWith fun answers r =>
        let made : Made := ⟨some id, c, m.nameAt c.option?, answers⟩
        (¬ e.Fits (m.posted id) made →
          ∃ f, r = ({ code := .unexplained }, (m.drawn id rest).fault f)) ∧
        (e.Fits (m.posted id) made → Granted id e c (m.drawn id rest) r)) ∧
    (c.entry = .release → ∃ r, m.respond onThread c = .done r ∧
      (r.1.code = .ok ↔ (m.instanceOf id).initialised = true ∧ (m.instanceOf id).released = false ∧
        (m.instanceOf id).expected = []) ∧
      (r.1.code ≠ .ok → ∃ f, r = ({ code := .unexplained }, m.fault f))) ∧
    (m.respond onThread c).Ends fun r => Touches id m r.2 := by
  rw [respond_of_instanceAt hc hi]
  refine ⟨fun hne => ?_, fun he => ?_, respondInstance_touches id c m⟩
  · obtain ⟨hrefused, hjudged⟩ := respondInstance_judged id hne m
    refine ⟨hrefused, fun e rest hnext => (hjudged e rest hnext).mono fun answers r hr => ?_⟩
    cases hr with
    | granted hfits hgranted =>
      rw [drawn_posted] at hfits
      exact ⟨fun hnot => absurd hfits hnot, fun _ => hgranted⟩
    | refused hnot f =>
      rw [drawn_posted] at hnot
      exact ⟨fun _ => ⟨f, rfl⟩, fun hfits => absurd hfits hnot⟩
  · have hrelease : m.respondInstance id c = .done (m.respondRelease id) := by
      cases c <;> cases he
      rfl
    refine ⟨_, hrelease, ?_⟩
    rcases respondRelease_cases id m with ⟨hfree, heq⟩ | ⟨hnot, f, heq⟩
    · rw [heq]
      exact ⟨iff_of_true rfl hfree, fun hne => absurd rfl hne⟩
    · rw [heq]
      exact ⟨iff_of_false nofun hnot, fun _ => ⟨f, rfl⟩⟩

/-- A callback is registered as expected, by a call that fails as expected; a query comes out of turn; and a
release comes too early. -/
theorem early_calls_refused :
    let e : Expected := ⟨.setTerminate true, ⟨3⟩⟩
    let c : Call := .setTerminate 1 (some 5) (some .foreign)
    let m : Mock := { instances := [(7, { initialised := true, expected := [e] })], handles := [7] }
    c.handle? = some 1 ∧ m.instanceAt 1 = some 7 ∧ m.Next c.entry 7 e [] ∧
      (m.respond true c).EndsWith (fun _ r => Granted 7 e c (m.drawn 7 []) r) ∧
      e.leaves c .terminate none = some ⟨.foreign, 5⟩ ∧
      (∃ f, m.respond true (.val 1 2) = .done ({ code := .unexplained }, m.fault f)) ∧
      ∃ r, m.respond true (.release 1) = .done r ∧ r.1.code ≠ .ok := by
  intro e c m
  have hnext : m.Next c.entry 7 e [] := ⟨rfl, ⟨rfl, rfl⟩, rfl⟩
  have hother : ∀ e' rest, ¬ m.Next .val 7 e' rest := fun e' rest h => by
    cases h.awaits.queue
    exact nomatch h.entry
  have htaken := (calls_answered_exactly m true c 1 7 rfl rfl).1 nofun
  have hquery := (calls_answered_exactly m true (.val 1 2) 1 7 rfl rfl).1 nofun
  obtain ⟨r, hr, hiff, -⟩ := (calls_answered_exactly m true (.release 1) 1 7 rfl rfl).2.1 rfl
  refine ⟨rfl, rfl, hnext, ?_, rfl, hquery.1 hother, r, hr, fun hok => nomatch (hiff.mp hok).2.2⟩
  exact (htaken.2 e [] hnext).mono fun answers r h => h.2 ⟨rfl, rfl⟩

end Mock
end SatClient
