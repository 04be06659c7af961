import SatClient.Proofs.Growth

/-!
# Solvers and their bridges

Whatever a client and native solvers do, each solver of a session has a bridge of its own, and there
are no other bridges. No identity is given twice, and nothing has happened to a solver that is yet
to be made.

* `Event.owner?`: the solver to which an event belongs
* `Client.Keeps`: the bridges stay, and more has happened to solvers that there have been
* `Stage.Sound`: the invariant; `Stage.Move.sound`: each move keeps it
* **`Session.sound_after`**: it holds after all turns
* `Session.identities`, `Session.mem_identities_iff`: the solvers that are there, each with a bridge
* `Session.stage_end`, `Session.finish_solvers`: at its end a session drops what it has left
* `Session.farewell`, `Session.finish_eq`: it does so in turns like any others
-/

namespace SatClient

variable {σ : Type} {N : Native σ} {es : List EntryPoint}

/-- The solver to which an event belongs, if it belongs to one. -/
def Event.owner? : Event → Option Nat
  | called owner .. | returned owner .. => owner
  | opened i _ | closed i | taken i .. | dropped i .. | asked i _ | heard i .. | raised i _
  | resumed i _ | discarded i _ => some i
  | _ => none

theorem Event.GivesBack.owner? {i : Nat} {e : Event} (h : e.GivesBack i) : e.owner? = some i := by
  cases h <;> rfl

theorem Event.IsAside.owner? {e : Event} (h : e.IsAside) : e.owner? = none := by
  cases e <;> first | rfl | cases h

/-- What happens when functions are looked for. -/
def Event.OfSearch : Event → Prop
  | requested _ | notice _ => True
  | _ => False

theorem Event.OfSearch.note {e : Event} (h : e.OfSearch) : e.owner? = none ∧ e.IsNote := by
  cases e <;> first | exact ⟨rfl, trivial⟩ | cases h

/-! ## What most moves keep -/

/-- The bridges are those of the same solvers, and more has happened to solvers with identities
below `n`. -/
structure Client.Keeps (n : Nat) (c c' : Client) : Prop where
  keys : c'.bridges.keys = c.bridges.keys
  trace : ∃ events, c'.trace = c.trace ++ events ∧ ∀ e ∈ events, ∀ i, e.owner? = some i → i < n

namespace Client.Keeps

variable {n : Nat} {c c' c'' : Client}

theorem refl (n : Nat) (c : Client) : Keeps n c c := ⟨rfl, [], by simp, by simp⟩

theorem trans (h : Keeps n c c') (h' : Keeps n c' c'') : Keeps n c c'' := by
  obtain ⟨hk, events, ht, ho⟩ := h
  obtain ⟨hk', events', ht', ho'⟩ := h'
  refine ⟨hk'.trans hk, events ++ events', ?_, ?_⟩
  · rw [ht', ht, List.append_assoc]
  · intro e he
    rcases List.mem_append.mp he with he | he
    · exact ho e he
    · exact ho' e he

theorem note {events : List Event} (c : Client) (h : ∀ e ∈ events, ∀ i, e.owner? = some i → i < n) :
    Keeps n c (c.note events) := ⟨rfl, events, rfl, h⟩

theorem setBridge {i : Nat} (b : Bridge) (hi : i ∈ c.bridges.keys) : Keeps n c (c.setBridge i b) :=
  ⟨Keyed.keys_set_of_mem hi b, [], by simp [Client.setBridge], by simp⟩

theorem noteOwn {events : List Event} {i : Nat} (hi : i < n)
    (h : ∀ e ∈ events, e.owner? = none ∨ e.owner? = some i) : Keeps n c (c.note events) := by
  refine note c ?_
  intro e he j hj
  rcases h e he with ho | ho
  · rw [ho] at hj
    cases hj
  · rw [ho] at hj
    cases hj
    exact hi

end Client.Keeps

theorem Bridge.Visit.owner? {i : Nat} {b b' : Bridge} {events : List Event}
    (h : Bridge.Visit i b events b') : ∀ e ∈ events, e.owner? = none ∨ e.owner? = some i := by
  cases h <;> simp [Event.owner?]

theorem Client.Visit.keeps {n : Nat} {c c' : Client} (h : Client.Visit c c')
    (hn : ∀ i ∈ c.bridges.keys, i < n) : Client.Keeps n c c' := by
  cases h with
  | aside he =>
    refine .note c ?_
    intro e hm i hi
    rw [(he e hm).owner?] at hi
    cases hi
  | @bridge i b b' events e hb hv he =>
    have hi : i ∈ c.bridges.keys := (Keyed.mem_keys_iff _ i).mpr ⟨b, hb⟩
    refine (Client.Keeps.setBridge b' hi).trans (.noteOwn (hn i hi) ?_)
    intro e' he'
    rcases List.mem_append.mp he' with he' | he'
    · exact hv.owner? e' he'
    · rw [List.mem_singleton.mp he']
      exact .inl he.owner?

theorem Client.Visits.keeps {n : Nat} {c c' : Client} (h : Client.Visits c c')
    (hn : ∀ i ∈ c.bridges.keys, i < n) : Client.Keeps n c c' := by
  induction h with
  | refl => exact .refl n c
  | tail _ hv ih =>
    refine ih.trans (hv.keeps ?_)
    rw [ih.keys]
    exact hn

/-- A call keeps what the visits in it keep. -/
theorem World.call_keeps {n : Nat} {owner : Option Nat} (a : Address) (c : Call) (w : World σ)
    (hn : ∀ i ∈ w.client.bridges.keys, i < n) (ho : ∀ i, owner = some i → i < n) :
    Client.Keeps n w.client (w.call N owner a c).2.client := by
  obtain ⟨client, hv, hc⟩ := World.call_client N owner a c w
  have h₁ : Client.Keeps n w.client (w.client.note [.called owner a c]) :=
    .note _ (by simpa [Event.owner?] using ho)
  have h₂ := h₁.trans (hv.keeps hn)
  rw [hc]
  exact h₂.trans (.note _ (by simpa [Event.owner?] using ho))

/-- A move of a solver that has a bridge. -/
theorem Solver.Move.keeps {n : Nat} {f f' : Focus σ} (h : Solver.Move N es f f')
    (hn : ∀ i ∈ f.world.client.bridges.keys, i < n)
    (hi : f.solver.identity ∈ f.world.client.bridges.keys) :
    Client.Keeps n f.world.client f'.world.client := by
  have hi' : f.solver.identity < n := hn _ hi
  cases h with
  | tell m => exact .noteOwn hi' (by simp [Event.owner?])
  | buffer b => exact .refl n _
  | options he => exact .refl n _
  | call he hc => exact World.call_keeps _ _ _ hn (by rintro i ⟨⟩; exact hi')
  | resume he hp =>
    exact (Client.Keeps.setBridge _ hi).trans (.noteOwn hi' (by simp [Event.owner?]))
  | take he => exact .noteOwn hi' (by simp [Event.owner?])
  | drop he => exact .noteOwn hi' (by simp [Event.owner?])
  | settleTerminate he =>
    refine (Client.Keeps.setBridge _ hi).trans (.noteOwn hi' ?_)
    exact fun e hm => .inr (f.bridge.dropEvents_givesBack _ .terminate e hm).owner?
  | settleExporter he =>
    refine (Client.Keeps.setBridge _ hi).trans (.noteOwn hi' ?_)
    exact fun e hm => .inr (f.bridge.dropEvents_givesBack _ .exporter e hm).owner?

theorem Solver.Moves.keeps {n : Nat} {f f' : Focus σ} (h : Solver.Moves N es f f')
    (hn : ∀ i ∈ f.world.client.bridges.keys, i < n)
    (hi : f.solver.identity ∈ f.world.client.bridges.keys) :
    Client.Keeps n f.world.client f'.world.client := by
  induction h with
  | refl => exact .refl n _
  | tail hms hm ih =>
    refine ih.trans (hm.keeps ?_ ?_)
    · rw [ih.keys]
      exact hn
    · rw [ih.keys, (Solver.Moves.solver_eq hms).1]
      exact hi

theorem Solver.Move.nextIdentity {f f' : Focus σ} (h : Solver.Move N es f f') :
    f'.world.nextIdentity = f.world.nextIdentity := by
  cases h <;> rfl

theorem Solver.Moves.nextIdentity {f f' : Focus σ} (h : Solver.Moves N es f f') :
    f'.world.nextIdentity = f.world.nextIdentity := by
  induction h with
  | refl => rfl
  | tail _ hm ih => exact hm.nextIdentity.trans ih

/-! ## The invariant -/

namespace Stage

def identity? (st : Stage σ) (key : Int) : Option Nat :=
  (st.solvers.get? key).map Solver.identity

def Holds (st : Stage σ) (i : Nat) : Prop :=
  (∃ key, st.identity? key = some i) ∨ st.newborn.map Solver.identity = some i

/-- The solvers of a session, each with a bridge of its own. -/
structure Sound (st : Stage σ) : Prop where
  keys : st.solvers.keys.Nodup
  bridges : st.world.client.bridges.keys.Nodup
  held : ∀ i, i ∈ st.world.client.bridges.keys ↔ st.Holds i
  apart : ∀ key key' i, st.identity? key = some i → st.identity? key' = some i → key = key'
  newborn : ∀ key i, st.newborn.map Solver.identity = some i → st.identity? key ≠ some i
  fresh : ∀ i ∈ st.world.client.bridges.keys, i < st.world.nextIdentity
  owners : ∀ e ∈ st.world.client.trace, ∀ i, e.owner? = some i → i < st.world.nextIdentity

variable {st st' : Stage σ}

theorem Sound.of_keeps (hs : st.Sound) (hk : st'.solvers.keys = st.solvers.keys)
    (hi : st'.identity? = st.identity?) (hn : st'.newborn = st.newborn)
    (hx : st'.world.nextIdentity = st.world.nextIdentity)
    (hc : Client.Keeps st.world.nextIdentity st.world.client st'.world.client) : st'.Sound := by
  obtain ⟨hkeys, events, ht, ho⟩ := hc
  constructor
  · rw [hk]
    exact hs.keys
  · rw [hkeys]
    exact hs.bridges
  · intro i
    rw [hkeys, hs.held i, Holds, Holds, hi, hn]
  · rw [hi]
    exact hs.apart
  · rw [hi, hn]
    exact hs.newborn
  · rw [hkeys, hx]
    exact hs.fresh
  · rw [ht, hx]
    intro e he
    rcases List.mem_append.mp he with he | he
    · exact hs.owners e he
    · exact ho e he

theorem Sound.of_client (hs : st.Sound) {world : World σ}
    (hx : world.nextIdentity = st.world.nextIdentity)
    (hc : Client.Keeps st.world.nextIdentity st.world.client world.client) :
    Sound { st with world } := hs.of_keeps rfl rfl rfl hx hc

theorem Sound.bridge_of_get? (hs : st.Sound) {key : Int} {solver : Solver}
    (hk : st.solvers.get? key = some solver) :
    solver.identity ∈ st.world.client.bridges.keys := by
  refine (hs.held _).mpr (.inl ⟨key, ?_⟩)
  rw [identity?, hk]
  rfl

theorem Sound.call_keeps (hs : st.Sound) {key : Int} {solver : Solver}
    (hk : st.solvers.get? key = some solver) (c : Call) :
    Client.Keeps st.world.nextIdentity st.world.client
      ((⟨solver, st.world⟩ : Focus σ).call N c).2.world.client := by
  refine World.call_keeps _ _ _ hs.fresh ?_
  rintro i ⟨⟩
  exact hs.fresh _ (hs.bridge_of_get? hk)

/-- The native solver of a solver has been asked to go. -/
theorem Sound.asked (hs : st.Sound) {key : Int} {solver : Solver} {events : List Event}
    (hk : st.solvers.get? key = some solver) (ht : ∀ e ∈ events, ∃ n, e = .notice n) :
    Sound { st with world :=
      (((⟨solver, st.world⟩ : Focus σ).call N (.release solver.handle)).2.note events).world } := by
  refine hs.of_client rfl ((hs.call_keeps hk (.release solver.handle)).trans (.note _ ?_))
  intro e he i ho
  obtain ⟨n, rfl⟩ := ht e he
  cases ho

theorem Sound.operate (hs : st.Sound) {key : Int} {solver : Solver} {f : Focus σ}
    (hk : st.solvers.get? key = some solver) (h : Solver.Move N es ⟨solver, st.world⟩ f) :
    Sound { st with world := f.world, solvers := st.solvers.set key f.solver } := by
  have hm : key ∈ st.solvers.keys := (Keyed.mem_keys_iff _ key).mpr ⟨solver, hk⟩
  refine hs.of_keeps (Keyed.keys_set_of_mem hm _) ?_ rfl h.nextIdentity
    (h.keeps hs.fresh (hs.bridge_of_get? hk))
  funext j
  simp only [identity?, Keyed.get?_set]
  split_ifs with hj
  · rw [← hj, hk]
    exact congrArg some h.solver_eq.1
  · rfl

theorem Sound.beget (hs : st.Sound) (hn : st.newborn = none) (symbols : Symbols) (handle : Handle) :
    Sound { st with
      world := st.world.opened handle, newborn := some (st.world.newborn symbols handle) } := by
  have hb : st.world.nextIdentity ∉ st.world.client.bridges.keys :=
    fun h => Nat.lt_irrefl _ (hs.fresh _ h)
  have hkeys : (st.world.opened handle).client.bridges.keys =
      st.world.client.bridges.keys ++ [st.world.nextIdentity] := Keyed.keys_set_of_notMem hb _
  constructor
  · exact hs.keys
  · rw [hkeys, List.nodup_append]
    refine ⟨hs.bridges, by simp, ?_⟩
    rintro i hi j hj rfl
    exact hb (List.mem_singleton.mp hj ▸ hi)
  · intro i
    have h := hs.held i
    rw [Holds, hn] at h
    rw [hkeys, List.mem_append, h, List.mem_singleton]
    simp only [Option.map_none, reduceCtorEq, or_false]
    refine or_congr Iff.rfl ?_
    rw [Option.map_some, Option.some.injEq]
    exact eq_comm
  · exact hs.apart
  · rintro key i hi he
    have hi : st.world.nextIdentity = i := Option.some.inj hi
    exact hb ((hs.held _).mpr (.inl ⟨key, hi ▸ he⟩))
  · intro i hi
    rw [hkeys, List.mem_append, List.mem_singleton] at hi
    show i < st.world.nextIdentity + 1
    rcases hi with hi | hi
    · have := hs.fresh i hi
      omega
    · omega
  · intro e he i hi
    show i < st.world.nextIdentity + 1
    rcases List.mem_append.mp he with he | he
    · have := hs.owners e he i hi
      omega
    · rw [List.mem_singleton.mp he] at hi
      have : st.world.nextIdentity = i := Option.some.inj hi
      omega

theorem Sound.keep (hs : st.Sound) {key : Int} {solver : Solver} (hn : st.newborn = some solver)
    (hk : st.solvers.get? key = none) :
    Sound { st with solvers := st.solvers.set key solver, newborn := none } := by
  have hid (j : Int) : identity? { st with solvers := st.solvers.set key solver, newborn := none } j =
      if key = j then some solver.identity else st.identity? j := by
    simp only [identity?, Keyed.get?_set]
    split_ifs <;> rfl
  have hkey : st.identity? key = none := by
    rw [identity?, hk]
    rfl
  have hnew (j : Int) : st.identity? j ≠ some solver.identity :=
    hs.newborn j _ (congrArg (Option.map Solver.identity) hn)
  constructor
  · exact Keyed.nodup_keys_set hs.keys key solver
  · exact hs.bridges
  · intro i
    rw [hs.held i]
    constructor
    · rintro (⟨j, hj⟩ | hi)
      · refine .inl ⟨j, ?_⟩
        have hne : key ≠ j := by
          rintro rfl
          rw [hkey] at hj
          cases hj
        rw [hid, if_neg hne]
        exact hj
      · rw [hn] at hi
        refine .inl ⟨key, ?_⟩
        rw [hid, if_pos rfl]
        exact hi
    · rintro (⟨j, hj⟩ | hi)
      · rw [hid] at hj
        split_ifs at hj with he
        · exact .inr (by rw [hn]; exact hj)
        · exact .inl ⟨j, hj⟩
      · cases hi
  · intro j j' i hj hj'
    rw [hid] at hj hj'
    split_ifs at hj hj' with he he'
    · rw [← he, ← he']
    · rw [← hj] at hj'
      exact absurd hj' (hnew j')
    · rw [← hj'] at hj
      exact absurd hj (hnew j)
    · exact hs.apart j j' i hj hj'
  · rintro j i hi
    cases hi
  · exact hs.fresh
  · exact hs.owners

/-- The end of a solver: its bridge goes, and no other. -/
theorem Sound.close (hs : st.Sound) {key : Int} {solver : Solver}
    (hk : st.solvers.get? key = some solver) :
    Sound { st with
      world := Solver.close ⟨solver, st.world⟩, solvers := st.solvers.erase key } := by
  have hid (j : Int) : identity? { st with
      world := Solver.close ⟨solver, st.world⟩, solvers := st.solvers.erase key } j =
      if key = j then none else st.identity? j := by
    simp only [identity?, Keyed.get?_erase hs.keys]
    split_ifs <;> rfl
  have hkey : st.identity? key = some solver.identity := by
    rw [identity?, hk]
    rfl
  have hb : (Solver.close ⟨solver, st.world⟩).client.bridges.keys =
      st.world.client.bridges.keys.erase solver.identity := Keyed.keys_erase _ _
  have hmem (i : Nat) : i ∈ st.world.client.bridges.keys.erase solver.identity ↔
      i ≠ solver.identity ∧ i ∈ st.world.client.bridges.keys := hs.bridges.mem_erase_iff
  have hi : solver.identity < st.world.nextIdentity := hs.fresh _ (hs.bridge_of_get? hk)
  constructor
  · exact Keyed.nodup_keys_erase hs.keys key
  · rw [hb]
    exact hs.bridges.erase _
  · intro i
    rw [hb, hmem, hs.held i]
    constructor
    · rintro ⟨hne, ⟨j, hj⟩ | hi⟩
      · refine .inl ⟨j, ?_⟩
        have hkj : key ≠ j := by
          rintro rfl
          rw [hkey] at hj
          exact hne (Option.some.inj hj).symm
        rw [hid, if_neg hkj]
        exact hj
      · exact .inr hi
    · rintro (⟨j, hj⟩ | hi)
      · rw [hid] at hj
        split_ifs at hj with hkj
        refine ⟨?_, .inl ⟨j, hj⟩⟩
        rintro rfl
        exact hkj (hs.apart key j _ hkey hj)
      · refine ⟨?_, .inr hi⟩
        rintro rfl
        exact hs.newborn key _ hi hkey
  · intro j j' i hj hj'
    rw [hid] at hj hj'
    split_ifs at hj hj'
    exact hs.apart j j' i hj hj'
  · intro j i hn hj
    rw [hid] at hj
    split_ifs at hj
    exact hs.newborn j i hn hj
  · intro i him
    rw [hb, hmem] at him
    exact hs.fresh i him.2
  · intro e he i hei
    show i < st.world.nextIdentity
    obtain ⟨events, ht, hback⟩ := Solver.close_trace (⟨solver, st.world⟩ : Focus σ)
    rw [ht] at he
    rcases List.mem_append.mp he with he | he
    · exact hs.owners e he i hei
    · rw [(hback e he).owner?] at hei
      exact Option.some.inj hei ▸ hi

/-- **Each move leaves every solver with a bridge of its own.** -/
theorem Move.sound (h : Move N es st st') (hs : st.Sound) : st'.Sound := by
  cases h with
  | tell n => exact hs.of_client rfl (.note _ (by simp [Event.owner?]))
  | unload => exact hs.of_client rfl (.note _ (by simp [Event.owner?]))
  | ask he hc => exact hs.of_client rfl (World.call_keeps _ _ _ hs.fresh (by simp))
  | operate hk h => exact hs.operate hk h
  | beget he hn => exact hs.beget hn _ _
  | keep hn hk => exact hs.keep hn hk
  | finish events he hk ht => exact (hs.asked hk ht).close hk

theorem Moves.sound (h : Moves N es st st') (hs : st.Sound) : st'.Sound := by
  induction h with
  | refl => exact hs
  | tail _ hm ih => exact hm.sound ih

/-- What every move from a sound stage keeps, moves keep. -/
theorem Moves.induct {P : Stage σ → Prop} (hP : ∀ st st', Move N es st st' → st.Sound → P st → P st')
    (h : Moves N es st st') (hs : st.Sound) (hp : P st) : P st' := by
  induction h with
  | refl => exact hp
  | tail hms hm ih => exact hP _ _ hm (Moves.sound hms hs) ih

end Stage

/-! ## Sessions -/

namespace Session

/-- By induction on the functions. -/
theorem resolveAll_ofSearch {ρ : Type} (R : Resolver ρ) (path : String) (fs : List EntryPoint)
    (symbols : Symbols) (r : ρ) : ∀ e ∈ (Symbols.resolveAll R path fs symbols r).2.1, e.OfSearch := by
  induction fs generalizing symbols r with
  | nil => simp [Symbols.resolveAll]
  | cons f rest ih =>
    rcases ha : R.ask f.name r with ⟨answer, r'⟩
    simp only [Symbols.resolveAll, ha]
    cases foundAddress f.name answer with
    | error reason => simp [Event.OfSearch]
    | ok address => simpa [Event.OfSearch] using ih (symbols.set f address) r'

/-- Looking for functions has nothing to do with any solver. -/
theorem resolveAll_events {ρ : Type} (R : Resolver ρ) (path : String) (fs : List EntryPoint)
    (symbols : Symbols) (r : ρ) :
    ∀ e ∈ (Symbols.resolveAll R path fs symbols r).2.1, e.owner? = none ∧ e.IsNote :=
  fun e he => (resolveAll_ofSearch R path fs symbols r e he).note

theorem load_stage {ρ : Type} (R : Resolver ρ) (path : String) (keeps : Bool) (r : ρ) (native : σ) :
    (load R path keeps r native).1.2.stage =
      ⟨{ native, client := { trace := (Symbols.resolve R path r).2.1 } }, [], none⟩ := by
  rcases hr : Symbols.resolve R path r with ⟨e | symbols, events, r'⟩ <;> simp only [load, hr] <;> rfl

theorem start_stage (opening : Opening) (native : σ) :
    ∃ trace, (start opening native).2.stage = ⟨{ native, client := { trace } }, [], none⟩ ∧
      ∀ e ∈ trace, e.owner? = none ∧ e.IsNote := by
  cases opening with
  | known => exact ⟨[], rfl, by simp⟩
  | resolved path keeps answer =>
    exact ⟨_, load_stage _ _ _ _ _, resolveAll_events (answering answer) path EntryPoint.all (fun _ => 0) ()⟩

/-- At the beginning functions may have been looked for. -/
theorem start_ofSearch (opening : Opening) (native : σ) :
    ∀ e ∈ (start opening native).2.trace, e.OfSearch := by
  cases opening with
  | known => exact List.forall_mem_nil _
  | resolved path keeps answer =>
    have hs := load_stage (answering answer) path keeps () native
    have ht : (start (.resolved path keeps answer) native).2.trace =
        (Symbols.resolve (answering answer) path ()).2.1 :=
      congrArg (fun st : Stage σ => st.world.client.trace) hs
    rw [ht]
    exact resolveAll_ofSearch (answering answer) path EntryPoint.all (fun _ => 0) ()

/-- Where there are no solvers yet, nothing has happened to any. -/
theorem sound_of_fresh {s : Session σ} {native : σ} {trace : List Event}
    (hs : s.stage = ⟨{ native, client := { trace } }, [], none⟩)
    (ho : ∀ e ∈ trace, e.owner? = none ∧ e.IsNote) : s.stage.Sound := by
  rw [hs]
  constructor <;> simp [Keyed.keys, Stage.Holds, Stage.identity?, Keyed.get?]
  intro e he i hi
  rw [(ho e he).1] at hi
  cases hi

theorem sound_start (opening : Opening) (native : σ) : (start opening native).2.stage.Sound := by
  obtain ⟨trace, hs, ho⟩ := start_stage opening native
  exact sound_of_fresh hs ho

/-- A turn leaves every solver with a bridge of its own. -/
theorem sound_turn {s : Session σ} (hs : s.stage.Sound) (t : Turn σ) :
    (s.turn N t).2.stage.Sound := by
  cases t with
  | client action => exact (step_moves hs.keys action).sound hs
  | native d => exact hs.of_client rfl ((d.run_visits s.world.client).keeps hs.fresh)

/-- **After all turns every solver has a bridge of its own.** By induction on the turns. -/
theorem sound_after {s : Session σ} (hs : s.stage.Sound) (turns : List (Turn σ)) :
    (s.after N turns).stage.Sound := by
  induction turns generalizing s with
  | nil => exact hs
  | cons t ts ih => exact ih (sound_turn hs t)

/-- The identities of the solvers that are there. -/
def identities (s : Session σ) : List Nat := s.solvers.values.map Solver.identity

/-- The solvers of a session are those that have bridges. -/
theorem mem_identities_iff {s : Session σ} (hs : s.stage.Sound) (i : Nat) :
    i ∈ s.identities ↔ i ∈ s.world.client.bridges.keys := by
  rw [identities, List.mem_map, show i ∈ s.world.client.bridges.keys ↔ _ from hs.held i]
  constructor
  · rintro ⟨x, hx, rfl⟩
    obtain ⟨key, hk⟩ := Keyed.exists_get?_of_mem_values hs.keys hx
    exact .inl ⟨key, congrArg (Option.map Solver.identity) hk⟩
  · rintro (⟨key, hk⟩ | hn)
    · obtain ⟨x, hx, rfl⟩ := Option.map_eq_some_iff.mp hk
      exact ⟨x, Keyed.mem_values_of_get? hx, rfl⟩
    · cases hn

theorem nodup_identities {s : Session σ} (hs : s.stage.Sound) : s.identities.Nodup := by
  refine Keyed.nodup_map_values hs.keys ?_
  intro key key' x x' hk hk' he
  refine hs.apart key key' x.identity (congrArg (Option.map Solver.identity) hk) ?_
  rw [he]
  exact congrArg (Option.map Solver.identity) hk'

/-! ## The end of a session -/

variable {s : Session σ}

theorem stage_dropInterface (s : Session σ) : Stage.Moves N es s.stage s.dropInterface.stage := by
  unfold dropInterface
  split_ifs
  · exact .refl
  · exact stage_leave none s

/-- By induction on the keys, of which each is free afterwards. -/
theorem stage_dropSolvers (he : .release ∈ es) (keys : List Int) (s : Session σ) :
    Stage.Moves N es s.stage (keys.foldl (fun s key => s.dropSolver N key) s).stage := by
  induction keys generalizing s with
  | nil => exact .refl
  | cons key rest ih => exact (stage_dropSolver none he key s).trans (ih _)

/-- At its end a session drops its solvers, and then its interfaces. -/
theorem stage_end (s : Session σ) : Stage.Moves N [.release] s.stage (s.finish N).stage := by
  have hr (n : Nat) (s : Session σ) : Stage.Moves N [.release] s.stage
      (Nat.repeat dropInterface n s).stage := by
    induction n with
    | zero => exact .refl
    | succ n ih => exact ih.trans (stage_dropInterface _)
  exact (stage_dropSolvers (List.mem_singleton.mpr rfl) _ s).trans (hr _ _)

theorem dropSolvers_solvers (keys : List Int) (s : Session σ) :
    (keys.foldl (fun s key => s.dropSolver N key) s).solvers = keys.foldl Keyed.erase s.solvers := by
  induction keys generalizing s with
  | nil => rfl
  | cons key rest ih => rw [List.foldl_cons, ih, dropSolver_solvers, List.foldl_cons]

/-- At the end of a session no solver is left. -/
theorem finish_solvers (s : Session σ) : (s.finish N).solvers = [] := by
  have hr (n : Nat) (s : Session σ) : (Nat.repeat dropInterface n s).solvers = s.solvers := by
    induction n with
    | zero => rfl
    | succ n ih =>
      rw [← ih]
      show (dropInterface _).solvers = _
      unfold dropInterface
      split_ifs
      · rfl
      · exact leave_solvers _
  rw [finish, hr, dropSolvers_solvers]
  exact Keyed.foldl_erase_perm (List.mergeSort_perm _ _)

theorem finish_of_solvers_nil (h : s.solvers = []) :
    s.finish N = Nat.repeat dropInterface s.interfaces s := by
  simp [finish, h, Keyed.keys]

theorem sound_end (hs : s.stage.Sound) : (s.finish N).stage.Sound := (stage_end s).sound hs

theorem finish_identities (s : Session σ) : (s.finish N).identities = [] := by
  rw [identities, finish_solvers]
  rfl

@[simp] theorem leave_interfaces (s : Session σ) : s.leave.interfaces = s.interfaces := by
  unfold leave
  cases s.library with
  | none => rfl
  | some l =>
    dsimp only
    split_ifs <;> rfl

/-- All solvers are dropped in order of their keys, and then all interfaces. -/
def farewell (s : Session σ) : List (Turn σ) :=
  (s.solvers.keys.mergeSort fun a b => decide (a ≤ b)).map (fun key => .client (.drop key)) ++
    List.replicate s.interfaces (.client .dropInterface)

theorem after_append (s : Session σ) (ts ts' : List (Turn σ)) :
    s.after N (ts ++ ts') = (s.after N ts).after N ts' := List.foldl_append

theorem turn_drop (s : Session σ) (key : Int) :
    (s.turn N (.client (.drop key))).2 = s.dropSolver N key := by
  simp only [turn, step, onSolver, dropSolver]
  cases s.solvers.get? key <;> rfl

theorem dropSolver_interfaces (key : Int) (s : Session σ) :
    (s.dropSolver N key).interfaces = s.interfaces := by
  unfold dropSolver
  cases s.solvers.get? key with
  | none => rfl
  | some solver => exact leave_interfaces _

theorem after_drops (keys : List Int) (s : Session σ) :
    s.after N (keys.map fun key => .client (.drop key)) =
        keys.foldl (fun s key => s.dropSolver N key) s ∧
      (keys.foldl (fun s key => s.dropSolver N key) s).interfaces = s.interfaces := by
  induction keys generalizing s with
  | nil => exact ⟨rfl, rfl⟩
  | cons key rest ih =>
    obtain ⟨h₁, h₂⟩ := ih (s.dropSolver N key)
    rw [List.map_cons, after_cons, turn_drop]
    exact ⟨h₁, h₂.trans (dropSolver_interfaces key s)⟩

theorem after_dropInterfaces (n : Nat) (s : Session σ) :
    s.after N (List.replicate n (.client .dropInterface)) = Nat.repeat dropInterface n s := by
  induction n with
  | zero => rfl
  | succ n ih =>
    rw [List.replicate_succ', after_append, ih]
    rfl

/-- **The end of a session is turns like any others.** -/
theorem finish_eq (s : Session σ) : s.finish N = s.after N s.farewell := by
  obtain ⟨h₁, h₂⟩ := after_drops (N := N) (s.solvers.keys.mergeSort fun a b => decide (a ≤ b)) s
  rw [farewell, after_append, h₁, after_dropInterfaces, ← h₂]
  rfl

end Session
end SatClient
