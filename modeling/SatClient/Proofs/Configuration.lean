import SatClient.Proofs.Lifetime
import SatClient.Proofs.Reach

/-!
# Settings one after the other

To apply settings is to set the options by name, one setting after the other, as long as that succeeds.
Beside what is told to a log nothing else happens.

* `untold`, `Focus.untold`: what has happened, and a state, but for the log
* `Solver.Deaf`, `Solver.deaf_setByName`: an operation to which the log makes no difference
* `Solver.setEach`, `Solver.answerAt`: settings set by name, whatever comes of each
* `Solver.configure_cases`, `Solver.configure_append`: where the settings stop, and how they are divided
* `Solver.Configured`: what settings come to
* **`Solver.configured_one_by_one`**: settings are set one by one, up to the first that fails
-/

namespace SatClient

variable {σ α β : Type} {N : Native σ}

/-! ## States but for the log -/

def Event.isNotice : Event → Bool
  | notice _ => true
  | _ => false

/-- What has happened, but for what was told to a log. -/
def untold (trace : List Event) : List Event := trace.filter fun e => !e.isNotice

theorem untold_append (l l' : List Event) : untold (l ++ l') = untold l ++ untold l' :=
  List.filter_append _ _

theorem callsMade_untold (trace : List Event) : callsMade (untold trace) = callsMade trace := by
  induction trace with
  | nil => rfl
  | cons e rest ih =>
    cases e with
    | notice n => exact ih
    | called owner a c => exact congrArg ((owner, c) :: ·) ih
    | _ => exact ih

namespace Client

def untold (c : Client) : Client := { c with trace := SatClient.untold c.trace }

variable {c c' : Client}

theorem untold_eq_iff :
    c.untold = c'.untold ↔ c.bridges = c'.bridges ∧ SatClient.untold c.trace = SatClient.untold c'.trace :=
  Client.mk.injEq _ _ _ _ ▸ Iff.rfl

theorem note_untold (h : c.untold = c'.untold) {events events' : List Event}
    (he : SatClient.untold events = SatClient.untold events') :
    (c.note events).untold = (c'.note events').untold := by
  obtain ⟨hb, ht⟩ := untold_eq_iff.mp h
  refine untold_eq_iff.mpr ⟨hb, ?_⟩
  rw [note, note, untold_append, untold_append, ht, he]

theorem setBridge_untold (h : c.untold = c'.untold) (i : Nat) (b : Bridge) :
    (c.setBridge i b).untold = (c'.setBridge i b).untold := by
  obtain ⟨hb, ht⟩ := untold_eq_iff.mp h
  exact untold_eq_iff.mpr ⟨congrArg (·.set i b) hb, ht⟩

theorem poll_untold (h : c.untold = c'.untold) (hook : Hook) :
    (c.poll hook).1 = (c'.poll hook).1 ∧ (c.poll hook).2.untold = (c'.poll hook).2.untold := by
  simp only [poll, (untold_eq_iff.mp h).1]
  cases hook.callback with
  | foreign => exact ⟨rfl, note_untold h rfl⟩
  | trampoline =>
    cases c'.bridges.get? hook.data with
    | none => exact ⟨rfl, note_untold h rfl⟩
    | some b => exact ⟨rfl, note_untold (setBridge_untold h _ _) rfl⟩

theorem offer_untold (h : c.untold = c'.untold) (hook : Hook) (memory : Option (List Int32)) :
    (c.offer hook memory).untold = (c'.offer hook memory).untold := by
  simp only [offer, (untold_eq_iff.mp h).1]
  cases hook.callback with
  | foreign => exact note_untold h rfl
  | trampoline =>
    cases c'.bridges.get? hook.data with
    | none => exact note_untold h rfl
    | some b => exact note_untold (setBridge_untold h _ _) rfl

end Client

/-- By induction on the dialogue. -/
theorem Dialogue.run_untold (d : Dialogue α) {c c' : Client} (h : c.untold = c'.untold) :
    (d.run c).1 = (d.run c').1 ∧ (d.run c).2.untold = (d.run c').2.untold := by
  induction d generalizing c c' with
  | done a => exact ⟨rfl, h⟩
  | poll hook next ih =>
    obtain ⟨ha, hc⟩ := Client.poll_untold h hook
    simp only [run, ha]
    exact ih _ hc
  | offer hook memory next ih => exact ih (Client.offer_untold h hook memory)
  | unregistered slot next ih => exact ih (Client.note_untold h rfl)

namespace Focus

/-- A state, but for the log. -/
def untold (f : Focus σ) : Focus σ :=
  { f with world := { f.world with client := f.world.client.untold } }

variable {f f' : Focus σ}

theorem untold_eq_iff : f.untold = f'.untold ↔ f.solver = f'.solver ∧ f.world.native = f'.world.native ∧
    f.world.nextIdentity = f'.world.nextIdentity ∧ f.world.client.untold = f'.world.client.untold := by
  obtain ⟨s, n, c, i⟩ := f
  obtain ⟨s', n', c', i'⟩ := f'
  simp only [untold, Focus.mk.injEq, World.mk.injEq]
  exact and_congr_right fun _ => and_congr_right fun _ => and_comm

theorem note_untold (h : f.untold = f'.untold) {events events' : List Event}
    (he : SatClient.untold events = SatClient.untold events') :
    (f.note events).untold = (f'.note events').untold := by
  obtain ⟨hs, hn, hi, hc⟩ := untold_eq_iff.mp h
  exact untold_eq_iff.mpr ⟨hs, hn, hi, Client.note_untold hc he⟩

theorem call_untold (h : f.untold = f'.untold) (c : Call) :
    (f.call N c).1 = (f'.call N c).1 ∧ (f.call N c).2.untold = (f'.call N c).2.untold := by
  obtain ⟨hs, hn, hi, hc⟩ := untold_eq_iff.mp h
  let called : List Event := [.called (some f'.solver.identity) (f'.solver.symbols c.entry) c]
  have hcalled : (f.world.client.note called).untold = (f'.world.client.note called).untold :=
    Client.note_untold hc rfl
  obtain ⟨hr, hd⟩ := (N.respond (f'.solver.symbols c.entry) c f'.world.native).run_untold hcalled
  simp only [call, World.call, hs, hn]
  refine ⟨congrArg Prod.fst hr, untold_eq_iff.mpr ⟨rfl, congrArg Prod.snd hr, hi, ?_⟩⟩
  exact Client.note_untold hd (congrArg (fun r => SatClient.untold [.returned _ c r.1]) hr)

theorem note_notice (f : Focus σ) (n : Notice) : (f.note [.notice n]).untold = f.untold :=
  untold_eq_iff.mpr ⟨rfl, rfl, rfl, Client.untold_eq_iff.mpr
    ⟨rfl, (untold_append _ _).trans (List.append_nil _)⟩⟩

end Focus

/-! ## Operations and the log -/

namespace Solver

/-- An operation to which the log makes no difference. -/
def Deaf (x : Act (Focus σ) α) : Prop :=
  ∀ f f', f.untold = f'.untold → (x f).1 = (x f').1 ∧ (x f).2.untold = (x f').2.untold

theorem Deaf.bind {x : Act (Focus σ) α} {g : α → Act (Focus σ) β} (hx : Deaf x) (hg : ∀ a, Deaf (g a)) :
    Deaf (x >>= g) := by
  intro f f' h
  obtain ⟨hr, hs⟩ := hx f f' h
  rw [Act.bind_apply, Act.bind_apply]
  rcases hf : x f with ⟨r, k⟩
  rcases hf' : x f' with ⟨r', k'⟩
  rw [hf, hf'] at hr hs
  obtain rfl : r = r' := hr
  cases r with
  | error e => exact ⟨rfl, hs⟩
  | ok a => exact hg a k k' hs

theorem deaf_pure (a : α) : Deaf (σ := σ) (pure a) := fun _ _ h => ⟨rfl, h⟩

theorem deaf_fail (e : Failure) : Deaf (σ := σ) (.fail e : Act (Focus σ) α) := fun _ _ h => ⟨rfl, h⟩

theorem deaf_tell (n : Notice) : Deaf (σ := σ) (tell n) := fun _ _ h => ⟨rfl, Focus.note_untold h rfl⟩

theorem deaf_current : Deaf (σ := σ) current :=
  fun _ _ h => ⟨congrArg Except.ok (Focus.untold_eq_iff.mp h).1, h⟩

theorem deaf_invoke (c : Call) : Deaf (invoke N c) := by
  intro f f' h
  obtain ⟨hr, hs⟩ := Focus.call_untold (N := N) h c
  exact ⟨congrArg Except.ok hr, hs⟩

theorem deaf_keepOptions (found : Except Failure Discovered) : Deaf (σ := σ) (keepOptions found) := by
  intro f f' h
  obtain ⟨hs, hrest⟩ := Focus.untold_eq_iff.mp h
  exact ⟨rfl, Focus.untold_eq_iff.mpr ⟨congrArg (fun s => { s with options := some found }) hs, hrest⟩⟩

theorem deaf_check (e : EntryPoint) (code : Code) : Deaf (σ := σ) (check e code) := by
  intro f f' h
  rw [check_apply, check_apply]
  split_ifs
  · exact ⟨rfl, h⟩
  · exact ⟨rfl, Focus.note_untold h rfl⟩

theorem deaf_discover : Deaf (discover N) := by
  refine deaf_current.bind fun s => ?_
  cases s.options with
  | some found =>
    cases found with
    | ok d => exact deaf_pure d
    | error e => exact deaf_fail e
  | none =>
    refine deaf_current.bind fun s => (deaf_invoke _).bind fun reply => ?_
    split_ifs
    · exact (deaf_tell _).bind fun _ => (deaf_keepOptions _).bind fun _ => deaf_pure _
    · exact (deaf_keepOptions _).bind fun _ => (deaf_check _ _).bind fun _ => deaf_pure _

theorem deaf_setByName (name : String) (value index : Int64) : Deaf (setByName N name value index) := by
  refine deaf_discover.bind fun d => ?_
  cases (d.position? name).bind fun i => d.descriptors[i]? with
  | none => exact deaf_fail _
  | some descriptor =>
    exact (deaf_tell _).bind fun _ => deaf_current.bind fun s => (deaf_invoke _).bind fun _ => deaf_check _ _

/-! ## Settings by name -/

/-- Sets the option that a setting names. -/
def setOne (N : Native σ) (s : Setting) : Act (Focus σ) Unit := setByName N s.name s.value s.index

/-- The state when settings have been set by name one after the other, whatever came of each. -/
def setEach (N : Native σ) (settings : List Setting) (f : Focus σ) : Focus σ :=
  settings.foldl (fun f s => (setOne N s f).2) f

/-- What comes of the setting at a place when those before it have been set by name. -/
def answerAt (N : Native σ) (settings : List Setting) (f : Focus σ) (k : Nat) :
    Option (Except Stop Unit) :=
  settings[k]?.map fun s => (setOne N s (setEach N (settings.take k) f)).1

def Succeeds (N : Native σ) (settings : List Setting) (f : Focus σ) (k : Nat) : Prop :=
  answerAt N settings f k = some (.ok ())

/-- All settings succeed, or there is a first that fails, behind which nothing is done. The log of `f`
need not be that of `g`. By induction on the settings. -/
theorem configure_cases (settings : List Setting) {f g : Focus σ} (h : g.untold = f.untold) :
    ((∀ k < settings.length, Succeeds N settings f k) ∧ (configure N settings g).1 = .ok () ∧
      (configure N settings g).2.untold = (setEach N settings f).untold) ∨
    ∃ k e, FirstFails (Succeeds N settings f) settings.length k ∧
      answerAt N settings f k = some (.error e) ∧ (configure N settings g).1 = .error e ∧
      (configure N settings g).2.untold = (setEach N (settings.take (k + 1)) f).untold := by
  induction settings generalizing f g with
  | nil => exact .inl ⟨fun k hk => absurd hk (Nat.not_lt_zero k), rfl, h⟩
  | cons s rest ih =>
    have hnoted : (g.note [.notice (.applying s)]).untold = f.untold := (g.note_notice _).trans h
    obtain ⟨hr, hs⟩ := deaf_setByName (N := N) s.name s.value s.index _ _ hnoted
    rw [configure_cons_apply, Act.bind_apply]
    rcases hg : setByName N s.name s.value s.index (g.note [.notice (.applying s)]) with ⟨r, g'⟩
    rw [hg] at hr hs
    have hone : answerAt N (s :: rest) f 0 = some r := congrArg some hr.symm
    cases r with
    | error e =>
      have hfails : ¬ Succeeds N (s :: rest) f 0 := by simp [Succeeds, hone]
      exact .inr ⟨0, e, .zero hfails, hone, rfl, hs⟩
    | ok u =>
      rcases ih hs with ⟨hall, hok, hstate⟩ | ⟨k, e, hk, he, herr, hstate⟩
      · exact .inl ⟨all_good_succ hone hall, hok, hstate⟩
      · exact .inr ⟨k + 1, e, .succ hone hk, he, herr, hstate⟩

/-! ## What settings come to -/

/-- What it comes to to apply settings in a state: the answer, and the state that is left. -/
structure Configured (N : Native σ) (settings : List Setting) (f : Focus σ)
    (r : Except Stop Unit × Focus σ) : Prop where
  ok_iff : r.1 = .ok () ↔ ∀ k < settings.length, Succeeds N settings f k
  error_iff (e : Stop) : r.1 = .error e ↔ ∃ k, FirstFails (Succeeds N settings f) settings.length k ∧
    answerAt N settings f k = some (.error e)
  applied : ∃ n, IsGreatest {n | Reaches (Succeeds N settings f) settings.length n} n ∧
    r.2.untold = (setEach N (settings.take n) f).untold ∧
    callsMade r.2.world.client.trace =
      callsMade (setEach N (settings.take n) f).world.client.trace

theorem callsMade_of_untold {f f' : Focus σ} (h : f.untold = f'.untold) :
    callsMade f.world.client.trace = callsMade f'.world.client.trace := by
  have htrace := (Client.untold_eq_iff.mp (Focus.untold_eq_iff.mp h).2.2.2).2
  rw [← callsMade_untold, htrace, callsMade_untold]

theorem configured (settings : List Setting) (f : Focus σ) :
    Configured N settings f (configure N settings f) := by
  rcases configure_cases (N := N) settings (f := f) (g := f) rfl with
    ⟨hall, hok, hstate⟩ | ⟨k, e, hk, he, herr, hstate⟩
  · refine ⟨iff_of_true hok hall, fun e => iff_of_false (by simp [hok]) ?_, settings.length,
      isGreatest_reaches_length hall, ?_⟩
    · rintro ⟨k, hk, -⟩
      exact hk.not_all hall
    · rw [List.take_length]
      exact ⟨hstate, callsMade_of_untold hstate⟩
  · refine ⟨iff_of_false (by simp [herr]) hk.not_all, fun e' => ?_, k + 1, hk.isGreatest_reaches, hstate,
      callsMade_of_untold hstate⟩
    rw [herr]
    constructor
    · rintro ⟨⟩
      exact ⟨k, hk, he⟩
    · rintro ⟨k', hk', he'⟩
      obtain rfl := hk.unique hk'
      exact Option.some.inj (he.symm.trans he')

/-- By induction on the first settings. -/
theorem configure_append (a b : List Setting) :
    configure N (a ++ b) = configure N a >>= fun _ => configure N b := by
  induction a with
  | nil => rfl
  | cons s rest ih =>
    funext f
    rw [List.cons_append, configure_cons_apply, ih, Act.bind_apply, Act.bind_apply, configure_cons_apply,
      Act.bind_apply]
    rcases setByName N s.name s.value s.index (f.note [.notice (.applying s)]) with ⟨_ | _, f'⟩
    · rfl
    · exact Act.bind_apply _ _ _

/-- To apply settings makes the calls that it takes to set, one after the other, the longest first part
of them in which each but possibly the last succeeds, and leaves the state that this leaves, the log
apart. The answer is that of the first setting that fails, if one fails. Settings in two parts are
applied part by part, the second only behind a first that succeeds. -/
theorem configured_one_by_one (N : Native σ) (f : Focus σ) :
    (∀ settings, Configured N settings f (configure N settings f)) ∧
      ∀ a b, configure N (a ++ b) f = (configure N a >>= fun _ => configure N b) f :=
  ⟨fun settings => configured settings f, fun a b => congrFun (configure_append a b) f⟩

end Solver
end SatClient
