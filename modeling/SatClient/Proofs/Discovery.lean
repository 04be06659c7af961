import SatClient.Proofs.Access
import SatClient.Proofs.Lifetime
import SatClient.Scripted

/-!
# Looking for options

A solver asks its native solver for its options when they are first needed, and never again. What it
finds then, if only a failure, is all that it will ever know of them.

* `Session.needs?`, `Session.step_accessed`: the steps that need the options of a solver
* `Stage.Informed`: what a solver knows is what it has found
* `Passage.Consults`: a turn that needs options, by what was found
* **`options_looked_for_once`**: the looks for options, and what comes of them, over all turns
-/

namespace SatClient

variable {σ α : Type} {N : Native σ} {es : List EntryPoint}

/-! ## Steps -/

/-- The key of the solver whose options a step needs. -/
def Session.needs? (s : Session σ) : Step → Option Int
  | .getOptions key | .getOption key .. | .hasOption key _ | .setByName key .. => some key
  | .setOption key option .. => if (s.option? option).isSome then some key else none
  | .configure key texts =>
    match texts.mapM Setting.read with
    | .ok (_ :: _) => some key
    | _ => none
  | _ => none

/-- The answer of a step that does no more than read the options. -/
def Step.reading? : Step → Option (Discovered → Answer)
  | getOptions _ => some fun d => .done (.options d.options)
  | getOption _ name _ => some fun d => .ofResult .option ((d.named name).mapError .failure)
  | hasOption _ name => some fun d => .done (.flag (d.position? name).isSome)
  | _ => none

theorem Step.options_of_setOption {action : Step} (h : .setOption ∈ action.entries) :
    .options ∈ action.entries := by
  cases action <;> simp_all [Step.entries]

/-- The answer of a step in which an operation fails. -/
def Answer.Fails (e : Failure) : Answer → Prop
  | stopped s => s = .failure e
  | configured _ result => result = .error (.failure e)
  | _ => False

namespace Session

variable {s : Session σ} {key : Int} {x : Solver} {action : Step}

/-- What comes of a step that needs the options of the solver `x`. -/
structure Accessed (s : Session σ) (action : Step) (key : Int) (x : Solver) (r : Answer × Session σ)
    (found : Except Failure Discovered) (looked : List Reply) (f : Focus σ) : Prop where
  world : r.2.world = f.world
  solvers : r.2.solvers = s.solvers.set key f.solver
  accesses : Solver.Accesses [.setOption] found looked ⟨x, s.world⟩ f
  fails : ∀ e, found = .error e → r.1.Fails e ∧ Solver.Accesses [] found looked ⟨x, s.world⟩ f
  reads : ∀ read, action.reading? = some read →
    Solver.Accesses [] found looked ⟨x, s.world⟩ f ∧ ∀ d, found = .ok d → r.1 = read d

theorem accessed_reads (hk : s.solvers.get? key = some x) {op : Act (Focus σ) α}
    {read : Discovered → Except Failure α} (hop : Solver.Reads op read) (f : α → Value)
    (ha : action.reading? = some fun d => .ofResult f ((read d).mapError .failure)) :
    ∃ found looked g, Accessed s action key x (s.runOn key op (.ofResult f)) found looked g := by
  obtain ⟨found, looked, haccess, hr⟩ := hop ⟨x, s.world⟩
  refine ⟨found, looked, (op ⟨x, s.world⟩).2, ?_⟩
  rw [runOn_of_get? hk]
  refine ⟨rfl, rfl, haccess.mono (List.nil_subset _), fun e he => ⟨?_, haccess⟩, fun read' hread => ?_⟩
  · dsimp only
    rw [hr, he]
    exact rfl
  · refine ⟨haccess, fun d hd => ?_⟩
    rw [ha] at hread
    rw [← Option.some.inj hread]
    dsimp only
    rw [hr, hd]
    rfl

theorem accessed_sets (hk : s.solvers.get? key = some x) {op : Act (Focus σ) α} (hop : Solver.Sets op)
    (answer : Except Stop α → Answer) (hanswer : ∀ e, (answer (.error (.failure e))).Fails e)
    (ha : action.reading? = none) :
    ∃ found looked g, Accessed s action key x (s.runOn key op answer) found looked g := by
  obtain ⟨found, looked, haccess, hfail⟩ := hop ⟨x, s.world⟩
  refine ⟨found, looked, (op ⟨x, s.world⟩).2, ?_⟩
  rw [runOn_of_get? hk]
  refine ⟨rfl, rfl, haccess, fun e he => ?_, fun read hread => ?_⟩
  · obtain ⟨hr, haccess'⟩ := hfail e he
    refine ⟨?_, haccess'⟩
    dsimp only
    rw [hr]
    exact hanswer e
  · rw [ha] at hread
    cases hread

/-- Keeping an option changes neither the answer nor any solver. -/
theorem getOption_kept (name : String) (keep : Option String) :
    (s.getOption N key name keep).1 = (s.runOn key (Solver.getOption N name) (.ofResult .option)).1 ∧
      (s.getOption N key name keep).2.stage =
        (s.runOn key (Solver.getOption N name) (.ofResult .option)).2.stage := by
  unfold getOption
  split
  · rename_i hr
    rw [hr]
    exact ⟨rfl, rfl⟩
  · exact ⟨rfl, rfl⟩

theorem accessed_getOption (hk : s.solvers.get? key = some x) (name : String) (keep : Option String) :
    ∃ found looked f, Accessed s (.getOption key name keep) key x (s.getOption N key name keep)
      found looked f := by
  have h : ∃ found looked f, Accessed s (.getOption key name keep) key x
      (s.runOn key (Solver.getOption N name) (.ofResult .option)) found looked f :=
    accessed_reads hk (Solver.reads_getOption name) .option rfl
  obtain ⟨found, looked, f, h⟩ := h
  obtain ⟨ha, hs⟩ : _ ∧ (s.getOption N key name keep).2.stage = _ := getOption_kept name keep
  refine ⟨found, looked, f, ?_, ?_, h.accesses, ?_, ?_⟩
  · exact (congrArg Stage.world hs).trans h.world
  · exact (congrArg Stage.solvers hs).trans h.solvers
  · rw [ha]
    exact h.fails
  · rw [ha]
    exact h.reads

/-- **A step that needs the options of a solver.** -/
theorem step_accessed (hn : s.needs? action = some key) (hk : s.solvers.get? key = some x) :
    ∃ found looked f, Accessed s action key x (s.step N action) found looked f := by
  cases action with
  | getOptions =>
    cases hn
    exact accessed_reads hk Solver.reads_getOptions .options rfl
  | getOption k name keep =>
    cases hn
    exact accessed_getOption hk name keep
  | hasOption k name =>
    cases hn
    exact accessed_reads hk (Solver.reads_hasOption name) .flag rfl
  | setByName k name value index =>
    cases hn
    exact accessed_sets hk (Solver.sets_setByName name value index) .ofUnit (fun _ => rfl) rfl
  | setOption k option value index =>
    rw [needs?] at hn
    cases ho : s.option? option with
    | none =>
      rw [ho] at hn
      cases hn
    | some o =>
      rw [ho] at hn
      cases hn
      rw [step, setOption, onSolver, hk]
      dsimp only
      rw [ho]
      exact accessed_sets hk (Solver.sets_setOption o value index) .ofUnit (fun _ => rfl) rfl
  | configure k texts =>
    rw [needs?] at hn
    cases ht : texts.mapM Setting.read with
    | error m =>
      rw [ht] at hn
      cases hn
    | ok settings =>
      rw [ht] at hn
      cases settings with
      | nil => cases hn
      | cons first rest =>
        cases hn
        rw [step, configure, onSolver, hk]
        dsimp only
        rw [ht]
        exact accessed_sets hk (Solver.sets_configure first rest) (.configured (first :: rest))
          (fun _ => rfl) rfl
  | _ => cases hn

/-- A step for which no options are needed calls neither function for options. -/
theorem step_unseeking (hs : s.solvers.keys.Nodup)
    (h : (s.needs? action).bind s.solvers.get? = none) :
    ∃ es, .options ∉ es ∧ .setOption ∉ es ∧ Stage.Moves N es s.stage (s.step N action).2.stage := by
  have hidle {s' : Session σ} (hs : s'.stage = s.stage) :
      ∃ es, .options ∉ es ∧ .setOption ∉ es ∧ Stage.Moves N es s.stage s'.stage :=
    ⟨[], List.not_mem_nil, List.not_mem_nil, hs ▸ .refl⟩
  have hnone {key : Int} (f : Solver → Answer × Session σ) (hk : s.solvers.get? key = none) :
      (s.onSolver key f).2.stage = s.stage := by
    rw [onSolver, hk]
  by_cases ho : .options ∈ action.entries
  · cases action with
    | getOptions key => exact hidle (hnone _ h)
    | getOption key name keep => exact hidle ((getOption_kept name keep).2.trans (hnone _ h))
    | hasOption key name => exact hidle (hnone _ h)
    | setByName key name value index => exact hidle (hnone _ h)
    | setOption key option value index =>
      refine hidle ?_
      rw [needs?] at h
      rw [step, setOption, onSolver]
      cases hk : s.solvers.get? key with
      | none => rfl
      | some x =>
        dsimp only
        cases hopt : s.option? option with
        | none => rfl
        | some o =>
          rw [hopt] at h
          cases h.symm.trans hk
    | configure key texts =>
      refine hidle ?_
      rw [needs?] at h
      rw [step, configure, onSolver]
      cases hk : s.solvers.get? key with
      | none => rfl
      | some x =>
        dsimp only
        cases ht : texts.mapM Setting.read with
        | error m => rfl
        | ok settings =>
          rw [ht] at h
          cases settings with
          | nil =>
            dsimp only
            rw [runOn_of_get? hk]
            show (⟨s.world, s.solvers.set key x, none⟩ : Stage σ) = _
            rw [Keyed.set_get?_self hk]
            rfl
          | cons first rest => cases h.symm.trans hk
    | _ => simp [Step.entries] at ho
  · exact ⟨_, ho, fun hset => ho (Step.options_of_setOption hset), step_moves hs action⟩

end Session

/-! ## The invariant -/

namespace Stage

/-- What a solver knows of its options is what it has found when it looked for them, once at most. -/
structure Informed (st : Stage σ) : Prop where
  known : ∀ x, st.HasSolver x → x.options =
    (looks x.identity (exchanges st.world.client.trace)).head?.map (Reply.found x.identity)
  once : ∀ i, (looks i (exchanges st.world.client.trace)).length ≤ 1

variable {st st' : Stage σ}

/-- Nobody looks for options, and no solver forgets what it has found. -/
theorem Informed.frame (h : st.Informed) {xs : List Exchange}
    (ht : exchanges st'.world.client.trace = exchanges st.world.client.trace ++ xs)
    (hx : ∀ x ∈ xs, ∀ i, x.owner = some i → x.call.entry ≠ .options)
    (hk : ∀ y, st'.HasSolver y → ∃ z, st.HasSolver z ∧ z.identity = y.identity ∧ z.options = y.options) :
    st'.Informed := by
  have hl (i : Nat) : looks i (exchanges st'.world.client.trace) =
      looks i (exchanges st.world.client.trace) := by
    rw [ht, looks_append, looks_eq_nil fun x hm => hx x hm i, List.append_nil]
  refine ⟨fun y hy => ?_, fun i => (hl i).symm ▸ h.once i⟩
  obtain ⟨z, hz, hi, ho⟩ := hk y hy
  rw [hl, ← hi, ← ho]
  exact h.known z hz

theorem Informed.quiet (h : st.Informed) {world : World σ}
    (ht : exchanges world.client.trace = exchanges st.world.client.trace) :
    Informed { st with world } := by
  refine h.frame (ht.trans (List.append_nil _).symm) ?_ fun y hy => ⟨y, hy, rfl, rfl⟩
  exact fun _ hx => absurd hx List.not_mem_nil

/-- A solver that has just been made knows of no options, and nothing was called for it. -/
theorem Informed.beget (h : st.Informed) (hs : st.Sound) (symbols : Symbols) (handle : Handle) :
    Informed { st with
      world := st.world.opened handle, newborn := some (st.world.newborn symbols handle) } := by
  have ht : exchanges (st.world.opened handle).client.trace = exchanges st.world.client.trace :=
    exchanges_note rfl
  refine ⟨?_, fun i => ht.symm ▸ h.once i⟩
  rintro y (hy | hy)
  · rw [ht]
    exact h.known y (.inl hy)
  · have hnew : looks st.world.nextIdentity (exchanges st.world.client.trace) = [] := by
      refine looks_eq_nil fun x hx ho => ?_
      obtain ⟨e, he, hex⟩ := List.mem_filterMap.mp hx
      have howner : e.owner? = some st.world.nextIdentity := (Event.owner?_of_exchange? hex).trans ho
      exact absurd (hs.owners e he _ howner) (Nat.lt_irrefl _)
    rw [← Option.some.inj hy, ht]
    show none = (looks st.world.nextIdentity _).head?.map _
    rw [hnew]
    rfl

/-- **A move that looks for no options leaves what is known.** -/
theorem Move.informed (h : Move N es st st') (ho : .options ∉ es) (hs : st.Sound) (hi : st.Informed) :
    st'.Informed := by
  cases h with
  | tell n => exact hi.quiet (exchanges_note rfl)
  | unload => exact hi.quiet (exchanges_note rfl)
  | @ask a c he hc =>
    refine hi.frame (World.call_exchanges _ _ _ _) (fun x hx i howner => ?_) fun y hy => ⟨y, hy, rfl, rfl⟩
    rw [List.mem_singleton.mp hx] at howner
    cases howner
  | @operate key solver f hk h =>
    have hr := h.retains ho
    obtain ⟨xs, ht, hx⟩ := hr.calls
    refine hi.frame ht (fun x hm i _ he => ho (he ▸ (hx x hm).2)) fun y hy => ?_
    rcases hasSolver_set hy with rfl | hy
    · exact ⟨solver, .inl ⟨key, hk⟩, hr.identity.symm, hr.options.symm⟩
    · exact ⟨y, hy, rfl, rfl⟩
  | beget he hn => exact hi.beget hs _ _
  | keep hn hk =>
    refine hi.frame (List.append_nil _).symm (fun _ hx => absurd hx List.not_mem_nil) fun y hy => ?_
    exact ⟨y, hasSolver_keep hn hy, rfl, rfl⟩
  | @finish key solver events he hk ht =>
    let called := (⟨solver, st.world⟩ : Focus σ).call N (.release solver.handle)
    obtain ⟨notes, hnotes, hn⟩ := Solver.close_noted_trace called.2 ht
    have hclose : exchanges (Solver.close (called.2.note events)).client.trace =
        exchanges called.2.world.client.trace := by
      rw [hnotes, exchanges_note (exchanges_of_isNote hn)]
    refine hi.frame (hclose.trans (World.call_exchanges _ _ _ _)) (fun x hm i _ he => ?_) fun y hy => ?_
    · rw [List.mem_singleton.mp hm] at he
      cases he
    · exact ⟨y, hasSolver_erase hs.keys hy, rfl, rfl⟩

end Stage

/-! ## Turns -/

/-- The solver whose options are needed in a turn. -/
def Passage.seeker? (p : Passage σ) : Option Solver :=
  match p.turn with
  | .client action => (p.before.needs? action).bind p.before.solvers.get?
  | .native _ => none

def Passage.Seeks (p : Passage σ) (i : Nat) : Prop := ∃ x, p.seeker? = some x ∧ x.identity = i

/-- The solver `x` calls nothing, unless to look for its options. -/
def Passage.OnlyLooks (p : Passage σ) (x : Solver) : Prop :=
  exchanges p.events = (looks x.identity (exchanges p.events)).map x.look

/-- What comes of a turn that needs the options of the solver `x`, by what was found. -/
structure Passage.Consults (p : Passage σ) (x : Solver) (found : Except Failure Discovered) : Prop where
  owner : ∀ e ∈ exchanges p.events, e.owner = some x.identity
  fails : ∀ e, found = .error e → p.answer.Fails e ∧ p.OnlyLooks x
  reads : ∀ d action read, found = .ok d → p.turn = .client action → action.reading? = some read →
    p.answer = read d ∧ p.OnlyLooks x

/-- What is found stays, whether it is found now or has been before. -/
theorem Stage.Informed.finds {st : Stage σ} (h : st.Informed) {x : Solver} (hx : st.HasSolver x)
    {found : Except Failure Discovered} {looked : List Reply} (hf : x.Finds found looked) :
    ∃ reply, found = reply.found x.identity ∧
      ((looks x.identity (exchanges st.world.client.trace) = [reply] ∧ looked = []) ∨
        (looks x.identity (exchanges st.world.client.trace) = [] ∧ looked = [reply])) := by
  have hknown := h.known x hx
  have honce := h.once x.identity
  generalize looks x.identity (exchanges st.world.client.trace) = before at hknown honce
  rcases hf with ⟨ho, rfl⟩ | ⟨ho, reply, rfl, rfl⟩
  · rw [ho] at hknown
    cases before with
    | nil => cases hknown
    | cons reply rest =>
      have hrest : rest = [] := List.eq_nil_of_length_eq_zero (by simpa using honce)
      exact ⟨reply, Option.some.inj hknown, .inl ⟨by rw [hrest], rfl⟩⟩
  · rw [ho] at hknown
    cases before with
    | nil => exact ⟨reply, rfl, .inr ⟨rfl, rfl⟩⟩
    | cons _ _ => cases hknown

namespace Session

variable {s : Session σ} {t : Turn σ} {x : Solver}

theorem exchanges_passage (hs : s.solvers.keys.Nodup) (t : Turn σ) :
    exchanges (s.turn N t).2.trace = exchanges s.trace ++ exchanges (s.passage N t).events := by
  rw [passage_trace hs, exchanges_append]

theorem looks_append_turn (hs : s.solvers.keys.Nodup) (t : Turn σ) (i : Nat) :
    looks i (exchanges (s.turn N t).2.trace) =
      looks i (exchanges s.trace) ++ looks i (exchanges (s.passage N t).events) := by
  rw [exchanges_passage hs, looks_append]

/-- A turn that needs no options. -/
theorem unseeking_turn (hs : s.stage.Sound) (h : (s.passage N t).seeker? = none) :
    (∀ e ∈ exchanges (s.passage N t).events, e.call.entry ≠ .options ∧ e.call.entry ≠ .setOption) ∧
      (s.stage.Informed → (s.turn N t).2.stage.Informed) := by
  cases t with
  | native d =>
    obtain ⟨events, ht, he⟩ := (d.run_visits s.world.client).events
    constructor
    · intro e hm
      exact absurd (entry_mem_of_allowed (turn_grows hs.keys (.native d)).2 e hm) List.not_mem_nil
    · intro hi
      refine hi.quiet ?_
      show exchanges (s.visited d).world.client.trace = _
      rw [visited, ht, exchanges_note (exchanges_of_isNote fun e hm => (he e hm).isNote)]
      rfl
  | client action =>
    obtain ⟨es, ho, hset, hm⟩ := step_unseeking (N := N) hs.keys h
    constructor
    · obtain ⟨events, ht, -, ha⟩ := hm.grows
      have ht : (s.turn N (.client action)).2.trace = s.trace ++ events := ht
      rw [passage_events ht]
      intro e he
      have hentry := entry_mem_of_allowed ha e he
      exact ⟨fun h => ho (h ▸ hentry), fun h => hset (h ▸ hentry)⟩
    · exact Stage.Moves.induct (P := Stage.Informed) (fun _ _ hmv hst hp => hmv.informed ho hst hp) hm hs

/-- The exchanges of a step that needs the options of the solver `x`. -/
theorem accessed_exchanges (hs : s.solvers.keys.Nodup) {action : Step}
    {found : Except Failure Discovered} {looked : List Reply} {f : Focus σ}
    (hw : (s.turn N (.client action)).2.world = f.world)
    (ha : Solver.Accesses es found looked ⟨x, s.world⟩ f) :
    ∃ xs, exchanges (s.passage N (.client action)).events = looked.map x.look ++ xs ∧
      ∀ e ∈ xs, e.owner = some x.identity ∧ e.call.entry ∈ es := by
  obtain ⟨xs, ht, hx⟩ := ha.calls
  refine ⟨xs, ?_, hx⟩
  have hp : exchanges (s.turn N (.client action)).2.world.client.trace = _ :=
    exchanges_passage (N := N) hs (.client action)
  rw [hw, ht, List.append_assoc] at hp
  exact (List.append_cancel_left hp).symm

/-- The looks for options in a step that needs those of the solver `x`. -/
theorem accessed_looks (hs : s.stage.Sound) (hi : s.stage.Informed) {key : Int}
    (hk : s.solvers.get? key = some x) {action : Step} {found : Except Failure Discovered}
    {looked : List Reply} {f : Focus σ}
    (ha : Accessed s action key x (s.step N action) found looked f) :
    (∀ i, looks i (exchanges (s.passage N (.client action)).events) =
        if i = x.identity then looked else []) ∧
      (looked ≠ [] ↔ looks x.identity (exchanges s.trace) = []) ∧
      ∃ reply, found = reply.found x.identity ∧
        looks x.identity (exchanges (s.turn N (.client action)).2.trace) = [reply] := by
  obtain ⟨reply, hfound, hlooked⟩ := hi.finds (.inl ⟨key, hk⟩) ha.accesses.finds
  have hlooked : (looks x.identity (exchanges s.trace) = [reply] ∧ looked = []) ∨
      (looks x.identity (exchanges s.trace) = [] ∧ looked = [reply]) := hlooked
  obtain ⟨xs, hev, hxs⟩ := accessed_exchanges hs.keys ha.world ha.accesses
  have hlooks (i : Nat) : looks i (exchanges (s.passage N (.client action)).events) =
      if i = x.identity then looked else [] := by
    have hrest : looks i xs = [] := looks_eq_nil fun e he _ ho => by
      have hentry := (hxs e he).2
      rw [ho] at hentry
      exact absurd hentry (by decide)
    rw [hev, looks_append, looks_map, hrest, List.append_nil]
  refine ⟨hlooks, ?_, reply, hfound, ?_⟩
  · rcases hlooked with ⟨hb, rfl⟩ | ⟨hb, rfl⟩ <;> simp [hb]
  · rw [looks_append_turn hs.keys, hlooks, if_pos rfl]
    rcases hlooked with ⟨hb, rfl⟩ | ⟨hb, rfl⟩ <;> rw [hb] <;> rfl

/-- What the solver `x` has found is known afterwards, and other solvers know what they knew. -/
theorem informed_accessed (hs : s.stage.Sound) (hi : s.stage.Informed) {key : Int}
    (hk : s.solvers.get? key = some x) {action : Step} {found : Except Failure Discovered}
    {looked : List Reply} {f : Focus σ}
    (ha : Accessed s action key x (s.step N action) found looked f) :
    (s.turn N (.client action)).2.stage.Informed := by
  obtain ⟨hlooks, -, reply, rfl, hmine⟩ := accessed_looks hs hi hk ha
  have hothers {i : Nat} (hne : i ≠ x.identity) :
      looks i (exchanges (s.turn N (.client action)).2.trace) = looks i (exchanges s.trace) := by
    rw [looks_append_turn hs.keys, hlooks, if_neg hne, List.append_nil]
  constructor
  · rintro y (⟨key', hk'⟩ | hn)
    · have hk' : (s.step N action).2.solvers.get? key' = some y := hk'
      rw [ha.solvers, Keyed.get?_set] at hk'
      split_ifs at hk' with hkey
      · rw [← Option.some.inj hk', ha.accesses.identity, ha.accesses.options]
        exact (congrArg (fun l => l.head?.map (Reply.found x.identity)) hmine).symm
      · have hne : y.identity ≠ x.identity := fun he => hkey <|
          hs.apart key key' x.identity (congrArg (Option.map Solver.identity) hk)
            ((congrArg (Option.map Solver.identity) hk').trans (congrArg some he))
        exact (hi.known y (.inl ⟨key', hk'⟩)).trans
          (congrArg (fun l => l.head?.map (Reply.found y.identity)) (hothers hne)).symm
    · cases hn
  · intro i
    by_cases he : i = x.identity
    · rw [he]
      exact Nat.le_of_eq (congrArg List.length hmine)
    · exact Nat.le_trans (Nat.le_of_eq (congrArg List.length (hothers he))) (hi.once i)

/-- What comes of a step by what was found. -/
theorem accessed_consults (hs : s.stage.Sound) (hi : s.stage.Informed) {key : Int}
    (hk : s.solvers.get? key = some x) {action : Step} {found : Except Failure Discovered}
    {looked : List Reply} {f : Focus σ}
    (ha : Accessed s action key x (s.step N action) found looked f) :
    (s.passage N (.client action)).Consults x found := by
  obtain ⟨hlooks, -⟩ := accessed_looks hs hi hk ha
  have honly (ha' : Solver.Accesses [] found looked ⟨x, s.world⟩ f) :
      (s.passage N (.client action)).OnlyLooks x := by
    obtain ⟨xs, hev, hxs⟩ := accessed_exchanges hs.keys ha.world ha'
    have hnil : xs = [] := List.eq_nil_iff_forall_not_mem.mpr fun e he =>
      absurd (hxs e he).2 List.not_mem_nil
    rw [Passage.OnlyLooks, hlooks, if_pos rfl, hev, hnil, List.append_nil]
  refine ⟨fun e he => ?_, fun e he => ⟨(ha.fails e he).1, honly (ha.fails e he).2⟩, ?_⟩
  · obtain ⟨xs, hev, hxs⟩ := accessed_exchanges hs.keys ha.world ha.accesses
    rw [hev] at he
    rcases List.mem_append.mp he with he | he
    · obtain ⟨r, -, rfl⟩ := List.mem_map.mp he
      rfl
    · exact (hxs e he).1
  · rintro d action' read hd ⟨⟩ hread
    exact ⟨(ha.reads read hread).2 d hd, honly (ha.reads read hread).1⟩

/-- A turn that needs the options of the solver `x`. -/
theorem seeking_turn (hs : s.stage.Sound) (hi : s.stage.Informed) (h : (s.passage N t).seeker? = some x) :
    (s.turn N t).2.stage.Informed ∧
      (∀ i, looks i (exchanges (s.passage N t).events) ≠ [] ↔
        i = x.identity ∧ looks i (exchanges s.trace) = []) ∧
      ∃ reply, (s.passage N t).Consults x (reply.found x.identity) ∧
        looks x.identity (exchanges (s.turn N t).2.trace) = [reply] := by
  cases t with
  | native d => cases h
  | client action =>
    obtain ⟨key, hn, hk⟩ := Option.bind_eq_some_iff.mp h
    obtain ⟨found, looked, f, ha⟩ := step_accessed (N := N) hn hk
    obtain ⟨hlooks, hfirst, reply, rfl, hmine⟩ := accessed_looks hs hi hk ha
    refine ⟨informed_accessed hs hi hk ha, fun i => ?_, reply, accessed_consults hs hi hk ha, hmine⟩
    rw [hlooks]
    by_cases he : i = x.identity
    · rw [if_pos he, hfirst, he, and_iff_right rfl]
    · rw [if_neg he]
      exact iff_of_false (fun hne => hne rfl) fun hi => he hi.1

theorem informed_turn (hs : s.stage.Sound) (hi : s.stage.Informed) (t : Turn σ) :
    (s.turn N t).2.stage.Informed := by
  cases h : (s.passage N t).seeker? with
  | none => exact (unseeking_turn hs h).2 hi
  | some x => exact (seeking_turn hs hi h).1

/-- By induction on the turns. -/
theorem informed_after (hs : s.stage.Sound) (hi : s.stage.Informed) (turns : List (Turn σ)) :
    (s.after N turns).stage.Informed := by
  induction turns generalizing s with
  | nil => exact hi
  | cons t ts ih => exact ih (sound_turn hs t) (informed_turn hs hi t)

theorem exchanges_start (opening : Opening) (native : σ) :
    exchanges (start opening native).2.stage.world.client.trace = [] := by
  obtain ⟨trace, hs, ho⟩ := start_stage opening native
  rw [hs]
  exact exchanges_of_isNote fun e he => (ho e he).2

theorem informed_start (opening : Opening) (native : σ) : (start opening native).2.stage.Informed := by
  constructor
  · obtain ⟨trace, hs, -⟩ := start_stage opening native
    rw [hs]
    rintro y (⟨key, hk⟩ | hy)
    · cases hk
    · cases hy
  · intro i
    rw [exchanges_start]
    exact Nat.zero_le 1

/-- A solver looks for its options in a turn that needs them, unless it has done so before. -/
theorem looks_turn (hs : s.stage.Sound) (hi : s.stage.Informed) (t : Turn σ) (i : Nat) :
    looks i (exchanges (s.passage N t).events) ≠ [] ↔
      (s.passage N t).Seeks i ∧ looks i (exchanges s.trace) = [] := by
  cases h : (s.passage N t).seeker? with
  | none =>
    have hnone : looks i (exchanges (s.passage N t).events) = [] :=
      looks_eq_nil fun e he _ => ((unseeking_turn hs h).1 e he).1
    refine iff_of_false (fun hne => hne hnone) ?_
    rintro ⟨⟨x, hx, -⟩, -⟩
    rw [h] at hx
    cases hx
  | some x =>
    have hseeks : (s.passage N t).Seeks i ↔ i = x.identity := by
      constructor
      · rintro ⟨y, hy, rfl⟩
        rw [h] at hy
        rw [Option.some.inj hy]
      · rintro rfl
        exact ⟨x, h, rfl⟩
    rw [hseeks]
    exact (seeking_turn hs hi h).2.1 i

/-- A solver has looked for its options if they have been needed. By induction on the turns. -/
theorem looks_after (hs : s.stage.Sound) (hi : s.stage.Informed) (turns : List (Turn σ)) (i : Nat) :
    looks i (exchanges (s.after N turns).trace) = [] ↔
      looks i (exchanges s.trace) = [] ∧ ∀ p ∈ s.course N turns, ¬ p.Seeks i := by
  induction turns generalizing s with
  | nil => exact ⟨fun h => ⟨h, fun _ hp => absurd hp List.not_mem_nil⟩, And.left⟩
  | cons t ts ih =>
    have hturn := looks_turn (N := N) hs hi t i
    rw [after_cons, ih (sound_turn hs t) (informed_turn hs hi t), looks_append_turn hs.keys,
      List.append_eq_nil_iff, course, List.forall_mem_cons, and_assoc]
    refine and_congr_right fun hb => ?_
    rw [hb, and_iff_left rfl] at hturn
    rw [← hturn, not_not]

/-- What has been found by a look stays the only thing found. By induction on the turns. -/
theorem looks_stays (hs : s.stage.Sound) (hi : s.stage.Informed) {i : Nat} {reply : Reply}
    (h : looks i (exchanges s.trace) = [reply]) (turns : List (Turn σ)) :
    looks i (exchanges (s.after N turns).trace) = [reply] := by
  induction turns generalizing s with
  | nil => exact h
  | cons t ts ih =>
    refine ih (sound_turn hs t) (informed_turn hs hi t) ?_
    have hnone : looks i (exchanges (s.passage N t).events) = [] := by
      by_contra hne
      have hb := ((looks_turn hs hi t i).mp hne).2
      rw [h] at hb
      cases hb
    rw [looks_append_turn hs.keys, h, hnone, List.append_nil]

end Session

/-- **A solver looks for its options once, when they are first needed, and goes by what it finds then.**
If the look fails, so does every turn that needs the options, with the same failure and without a call;
if it succeeds, they are read from what was found. -/
theorem options_looked_for_once (N : Native σ) (opening : Session.Opening) (native : σ)
    (turns : List (Turn σ)) (t : Turn σ) :
    let start := (Session.start opening native).2
    let p := (start.after N turns).passage N t
    callsMade p.events = (exchanges p.events).map (fun e => (e.owner, e.call)) ∧
      (∀ i, looks i (exchanges p.events) ≠ [] ↔
        p.Seeks i ∧ ∀ q ∈ start.course N turns, ¬ q.Seeks i) ∧
      (p.seeker? = none → ∀ e ∈ exchanges p.events, e.call.entry ≠ .setOption) ∧
      ∀ x, p.seeker? = some x → ∃ reply, p.Consults x (reply.found x.identity) ∧ ∀ later,
        let s := p.after.after N later
        looks x.identity (exchanges s.trace) = [reply] ∧ ∀ key y, s.solvers.get? key = some y →
          y.identity = x.identity → y.options = some (reply.found x.identity) := by
  intro start p
  let s := start.after N turns
  have hstart : start.stage.Sound := Session.sound_start opening native
  have hinformed : start.stage.Informed := Session.informed_start opening native
  have hs : s.stage.Sound := Session.sound_after hstart turns
  have hi : s.stage.Informed := Session.informed_after hstart hinformed turns
  have hnone (i : Nat) : looks i (exchanges start.trace) = [] :=
    congrArg (looks i) (Session.exchanges_start opening native)
  refine ⟨?_, fun i => ?_, fun h e he => ?_, fun x hx => ?_⟩
  · rw [(Session.turn_grows hs.keys t).1, callsReturned_eq]
  · rw [Session.looks_turn hs hi t i, Session.looks_after hstart hinformed turns i,
      and_iff_right (hnone i)]
  · exact ((Session.unseeking_turn hs h).1 e he).2
  · obtain ⟨hi', -, reply, hconsults, hmine⟩ := Session.seeking_turn hs hi hx
    have hs' : (s.turn N t).2.stage.Sound := Session.sound_turn hs t
    refine ⟨reply, hconsults, fun later => ?_⟩
    have hlater := Session.looks_stays (N := N) hs' hi' hmine later
    refine ⟨hlater, fun key y hk hy => ?_⟩
    have hknown := (Session.informed_after hs' hi' later).known y (.inl ⟨key, hk⟩)
    rw [hy] at hknown
    exact hknown.trans (congrArg (fun l => l.head?.map (Reply.found x.identity)) hlater)

/-- An option is to be set, and the look for options has failed before. -/
theorem failed_look_stays :
    let failing : Scripted :=
      { script := fun e => if e = .options then [{ code := .unexplained }] else [] }
    let start := (Session.start .known failing).2
    let turns : List (Turn Scripted) := [.client (.create 0), .client (.getOptions 0)]
    let p := (start.after Scripted.native turns).passage Scripted.native
      (.client (.setByName 0 "seed" 1 0))
    (∃ q ∈ start.course Scripted.native turns, q.Seeks 1) ∧
      ∃ x, p.seeker? = some x ∧ x.identity = 1 ∧ exchanges p.events = [] ∧
        p.answer.Fails (.callFailed "ipasir2_options" .unexplained) := by
  intro failing start turns p
  obtain ⟨-, hfirst, -, hseek⟩ := options_looked_for_once Scripted.native .known failing turns
    (.client (.setByName 0 "seed" 1 0))
  obtain ⟨reply, hconsults, hlater⟩ := hseek _ rfl
  have hbefore : ∃ q ∈ start.course Scripted.native turns, q.Seeks 1 :=
    ⟨_, List.mem_cons_of_mem _ List.mem_cons_self, _, rfl, rfl⟩
  have hreply : reply = { code := .unexplained } := (List.singleton_inj.mp (hlater []).1).symm
  subst hreply
  obtain ⟨hfails, honly⟩ := hconsults.fails _ rfl
  have hnone : looks 1 (exchanges p.events) = [] := by
    by_contra hne
    obtain ⟨q, hq, hseeks⟩ := hbefore
    exact ((hfirst 1).mp hne).2 q hq hseeks
  refine ⟨hbefore, _, rfl, rfl, ?_, hfails⟩
  exact honly.trans (congrArg (List.map _) hnone)

end SatClient
