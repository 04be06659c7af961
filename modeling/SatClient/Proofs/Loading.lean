import SatClient.Proofs.KeepAlive
import SatClient.Proofs.Lifetime
import SatClient.Proofs.Reach
import SatClient.Session.Trace

/-!
# Loading a library

A resolver is asked for the functions of a library by their names, in a fixed order, up to the first that
it does not find. If it finds all, each is called ever after at the address that was found under its own
name.

* `soughtNames`: the names, in the order in which they are asked for
* `Resolver.answerAt`, `Resolver.Finds`: what a resolver answers to names asked one after the other
* `Symbols.resolveAll_cases`: how far the resolver is asked, and what comes of it
* `Symbols.resolve_asked`, `Symbols.resolve_error_iff`, `Symbols.resolve_addresses`: the same for all
  functions of a library
* `Addressed`, `Stage.Bound`: functions are called at their own addresses; `Stage.Move.bound`
* `Session.Bound`, **`Session.bound_after`**: they are, in all turns of a session
* **`Session.load_comes_to`**: what comes of a load
-/

namespace SatClient

variable {σ ρ : Type} {N : Native σ} {es : List EntryPoint}

/-- The names of the functions, in the order in which they are asked for. -/
def soughtNames : List String :=
  ["ipasir2_init", "ipasir2_release", "ipasir2_add", "ipasir2_solve", "ipasir2_val", "ipasir2_failed",
    "ipasir2_options", "ipasir2_set_option", "ipasir2_set_terminate", "ipasir2_set_export",
    "ipasir2_signature"]

theorem names_all : EntryPoint.all.map EntryPoint.name = soughtNames := rfl

theorem nodup_soughtNames : soughtNames.Nodup := by decide

theorem EntryPoint.name_inj {e e' : EntryPoint} : e.name = e'.name ↔ e = e' := by
  have hnodup : (all.map name).Nodup := nodup_soughtNames
  exact ⟨fun h => List.inj_on_of_nodup_map hnodup (mem_all e) (mem_all e') h, congrArg name⟩

theorem all_of_lt {k : Nat} (hk : k < soughtNames.length) : ∃ e, EntryPoint.all[k]? = some e := by
  have hk : k < EntryPoint.all.length := hk
  exact ⟨_, List.getElem?_eq_getElem hk⟩

theorem soughtNames_of_all {k : Nat} {e : EntryPoint} (hk : EntryPoint.all[k]? = some e) :
    soughtNames[k]? = some e.name := by
  rw [← names_all, List.getElem?_map, hk]
  rfl

/-! ## Asking a resolver -/

namespace Resolver

/-- A resolver that has been asked for names, one after the other. -/
def asked (R : Resolver ρ) (names : List String) (r : ρ) : ρ :=
  names.foldl (fun r name => (R.ask name r).2) r

/-- The answer to the name at a place, when those before it have been asked for. -/
def answerAt (R : Resolver ρ) (names : List String) (r : ρ) (k : Nat) :
    Option (Except String Address) :=
  names[k]?.map fun name => (R.ask name (R.asked (names.take k) r)).1

/-- The answer to the name at a place is an address other than null. -/
def Finds (R : Resolver ρ) (names : List String) (r : ρ) (k : Nat) : Prop :=
  ∃ a, R.answerAt names r k = some (.ok a) ∧ a ≠ 0

end Resolver

/-- Why a function is missing, by the answer to its name. -/
def missing (name : String) : Except String Address → Absence
  | .error detail => .symbol name detail
  | .ok _ => .null name

theorem foundAddress_eq_ok_iff {name : String} {answer : Except String Address} {a : Address} :
    foundAddress name answer = .ok a ↔ answer = .ok a ∧ a ≠ 0 := by
  match answer with
  | .error detail => simp [foundAddress]
  | .ok 0 => simp +contextual [foundAddress, eq_comm]
  | .ok (n + 1) => simp +contextual [foundAddress, eq_comm]

theorem foundAddress_eq_error {name : String} {answer : Except String Address} {reason : Absence}
    (h : foundAddress name answer = .error reason) : reason = missing name answer := by
  unfold foundAddress at h
  split at h
  · exact (Except.error.inj h).symm
  · exact (Except.error.inj h).symm
  · cases h

namespace Symbols

variable {R : Resolver ρ} {path : String} {f : EntryPoint} {fs : List EntryPoint} {symbols : Symbols}
  {r : ρ}

theorem resolveAll_cons_error {reason : Absence}
    (h : foundAddress f.name (R.ask f.name r).1 = .error reason) :
    resolveAll R path (f :: fs) symbols r = (.error (.notLoaded path reason),
      [.requested f.name, .notice (.missing f.name path)], (R.ask f.name r).2) := by
  simp only [resolveAll, h]

theorem resolveAll_cons_ok {a : Address} (h : foundAddress f.name (R.ask f.name r).1 = .ok a) :
    resolveAll R path (f :: fs) symbols r =
      let further := resolveAll R path fs (symbols.set f a) (R.ask f.name r).2
      (further.1, .requested f.name :: .notice (.resolved f.name) :: further.2.1, further.2.2) := by
  simp only [resolveAll, h]

/-- What comes of it when all functions are found: each has the address that was answered to its name. -/
structure FindsAll (R : Resolver ρ) (fs : List EntryPoint) (symbols : Symbols) (r : ρ)
    (result : Except Failure Symbols × List Event × ρ) : Prop where
  finds : ∀ k < fs.length, R.Finds (fs.map EntryPoint.name) r k
  found : ∃ symbols', result.1 = .ok symbols' ∧ (∀ e ∉ fs, symbols' e = symbols e) ∧
    ∀ k e, fs[k]? = some e → R.answerAt (fs.map EntryPoint.name) r k = some (.ok (symbols' e))
  requests : requests result.2.1 = fs.map EntryPoint.name
  state : result.2.2 = R.asked (fs.map EntryPoint.name) r

/-- What comes of it when the function at a place is the first that is not found. -/
structure Misses (R : Resolver ρ) (path : String) (fs : List EntryPoint) (r : ρ)
    (result : Except Failure Symbols × List Event × ρ) (k : Nat) : Prop where
  first : FirstFails (R.Finds (fs.map EntryPoint.name) r) fs.length k
  missing : ∃ name answer, (fs.map EntryPoint.name)[k]? = some name ∧
    R.answerAt (fs.map EntryPoint.name) r k = some answer ∧
    result.1 = .error (.notLoaded path (missing name answer))
  requests : requests result.2.1 = (fs.map EntryPoint.name).take (k + 1)
  state : result.2.2 = R.asked ((fs.map EntryPoint.name).take (k + 1)) r

theorem misses_zero {reason : Absence} (h : foundAddress f.name (R.ask f.name r).1 = .error reason) :
    Misses R path (f :: fs) r (resolveAll R path (f :: fs) symbols r) 0 := by
  have hfails : ¬ R.Finds ((f :: fs).map EntryPoint.name) r 0 := by
    rintro ⟨a, ha, ha0⟩
    have hok : foundAddress f.name (R.ask f.name r).1 = .ok a :=
      foundAddress_eq_ok_iff.mpr ⟨Option.some.inj ha, ha0⟩
    cases h.symm.trans hok
  rw [resolveAll_cons_error h, foundAddress_eq_error h]
  exact ⟨.zero hfails, ⟨f.name, _, rfl, rfl, rfl⟩, rfl, rfl⟩

theorem FindsAll.cons (hf : f ∉ fs) {a : Address} (h : foundAddress f.name (R.ask f.name r).1 = .ok a)
    (hrest : FindsAll R fs (symbols.set f a) (R.ask f.name r).2
      (resolveAll R path fs (symbols.set f a) (R.ask f.name r).2)) :
    FindsAll R (f :: fs) symbols r (resolveAll R path (f :: fs) symbols r) := by
  obtain ⟨ha, ha0⟩ := foundAddress_eq_ok_iff.mp h
  obtain ⟨symbols', hok, hothers, hat⟩ := hrest.found
  have hself : symbols' f = a := (hothers f hf).trans (if_pos rfl)
  rw [resolveAll_cons_ok h]
  refine ⟨all_good_succ ⟨a, congrArg some ha, ha0⟩ hrest.finds, ⟨symbols', hok, fun e he => ?_, ?_⟩,
    congrArg (f.name :: ·) hrest.requests, hrest.state⟩
  · obtain ⟨hne, hnot⟩ := not_or.mp (mt List.mem_cons.mpr he)
    exact (hothers e hnot).trans (if_neg hne)
  · intro k e hk
    cases k with
    | zero =>
      obtain rfl : f = e := Option.some.inj hk
      rw [hself]
      exact congrArg some ha
    | succ k => exact hat k e hk

theorem Misses.cons {a : Address} (h : foundAddress f.name (R.ask f.name r).1 = .ok a) {k : Nat}
    (hrest : Misses R path fs (R.ask f.name r).2
      (resolveAll R path fs (symbols.set f a) (R.ask f.name r).2) k) :
    Misses R path (f :: fs) r (resolveAll R path (f :: fs) symbols r) (k + 1) := by
  obtain ⟨ha, ha0⟩ := foundAddress_eq_ok_iff.mp h
  rw [resolveAll_cons_ok h]
  exact ⟨.succ ⟨a, congrArg some ha, ha0⟩ hrest.first, hrest.missing,
    congrArg (f.name :: ·) hrest.requests, hrest.state⟩

/-- The resolver finds all functions, or is asked up to the first that it does not find. By induction on
the functions. -/
theorem resolveAll_cases (R : Resolver ρ) (path : String) (hfs : fs.Nodup) (symbols : Symbols) (r : ρ) :
    FindsAll R fs symbols r (resolveAll R path fs symbols r) ∨
      ∃ k, Misses R path fs r (resolveAll R path fs symbols r) k := by
  induction fs generalizing symbols r with
  | nil =>
    exact .inl ⟨fun k hk => absurd hk (Nat.not_lt_zero k),
      ⟨symbols, rfl, fun _ _ => rfl, fun _ _ h => (by cases h)⟩, rfl, rfl⟩
  | cons f rest ih =>
    obtain ⟨hf, hrest⟩ := List.nodup_cons.mp hfs
    cases h : foundAddress f.name (R.ask f.name r).1 with
    | error reason => exact .inr ⟨0, misses_zero h⟩
    | ok a =>
      rcases ih hrest (symbols.set f a) (R.ask f.name r).2 with hall | ⟨k, hk⟩
      · exact .inl (hall.cons hf h)
      · exact .inr ⟨k + 1, hk.cons h⟩

/-! ### All functions of a library -/

theorem resolve_cases (R : Resolver ρ) (path : String) (r : ρ) :
    FindsAll R EntryPoint.all (fun _ => 0) r (resolve R path r) ∨
      ∃ k, Misses R path EntryPoint.all r (resolve R path r) k :=
  resolveAll_cases R path EntryPoint.nodup_all (fun _ => 0) r

/-- The names are asked for in order, up to the first that is not found. -/
theorem resolve_asked (R : Resolver ρ) (path : String) (r : ρ) :
    ∃ n, IsGreatest {n | Reaches (R.Finds soughtNames r) soughtNames.length n} n ∧
      SatClient.requests (resolve R path r).2.1 = soughtNames.take n ∧
      (resolve R path r).2.2 = R.asked (soughtNames.take n) r := by
  rcases resolve_cases R path r with h | ⟨k, h⟩
  · refine ⟨soughtNames.length, isGreatest_reaches_length h.finds, ?_, ?_⟩
    · rw [List.take_length]
      exact h.requests
    · rw [List.take_length]
      exact h.state
  · exact ⟨k + 1, h.first.isGreatest_reaches, h.requests, h.state⟩

theorem resolve_ok_iff : (∃ symbols, (resolve R path r).1 = .ok symbols) ↔
    ∀ k < soughtNames.length, R.Finds soughtNames r k := by
  rcases resolve_cases R path r with h | ⟨k, h⟩
  · obtain ⟨symbols, hok, -⟩ := h.found
    exact iff_of_true ⟨symbols, hok⟩ h.finds
  · obtain ⟨name, answer, -, -, herr⟩ := h.missing
    exact iff_of_false (by simp [herr]) h.first.not_all

/-- The failure names the first function that is not found. -/
theorem resolve_error_iff {e : Failure} : (resolve R path r).1 = .error e ↔
    ∃ k name answer, FirstFails (R.Finds soughtNames r) soughtNames.length k ∧
      soughtNames[k]? = some name ∧ R.answerAt soughtNames r k = some answer ∧
      e = .notLoaded path (SatClient.missing name answer) := by
  rcases resolve_cases R path r with h | ⟨k, h⟩
  · obtain ⟨symbols, hok, -⟩ := h.found
    refine iff_of_false (by simp [hok]) ?_
    rintro ⟨k, name, answer, hk, -⟩
    exact hk.not_all h.finds
  · obtain ⟨name, answer, hname, hat, herr⟩ := h.missing
    rw [herr]
    constructor
    · rintro ⟨⟩
      exact ⟨k, name, answer, h.first, hname, hat, rfl⟩
    · rintro ⟨k', name', answer', hk', hname', hat', rfl⟩
      obtain rfl := h.first.unique hk'
      cases hname.symm.trans hname'
      cases hat.symm.trans hat'
      rfl

/-- Each function has the address that was answered to its own name. -/
theorem resolve_addresses (h : (resolve R path r).1 = .ok symbols) {k : Nat} {e : EntryPoint}
    (hk : EntryPoint.all[k]? = some e) : R.answerAt soughtNames r k = some (.ok (symbols e)) := by
  rcases resolve_cases R path r with hall | ⟨k, hk⟩
  · obtain ⟨symbols', hok, -, hat⟩ := hall.found
    cases h.symm.trans hok
    exact hat k e hk
  · obtain ⟨name, answer, -, -, herr⟩ := hk.missing
    cases h.symm.trans herr

end Symbols

/-! ## Addresses that are called -/

/-- Each function is called at its own address. -/
def Addressed (symbols : Symbols) (trace : List Event) : Prop :=
  ∀ owner a c, .called owner a c ∈ trace → a = symbols c.entry

section Addressed

variable {symbols : Symbols} {t events : List Event}

theorem Addressed.append (h : Addressed symbols t) (h' : Addressed symbols events) :
    Addressed symbols (t ++ events) :=
  fun owner a c hm => (List.mem_append.mp hm).elim (h owner a c) (h' owner a c)

theorem addressed_of_isNote (h : ∀ e ∈ events, e.IsNote) : Addressed symbols events :=
  fun _ _ _ hm => (h _ hm).elim

theorem World.call_addressed {owner : Option Nat} {a : Address} {c : Call} (ha : a = symbols c.entry)
    {w : World σ} (h : Addressed symbols w.client.trace) :
    Addressed symbols (w.call N owner a c).2.client.trace := by
  obtain ⟨events, ht, hv⟩ := World.call_events N owner a c w
  have hcalled : Addressed symbols [.called owner a c] := by
    intro owner' a' c' hm
    cases List.mem_singleton.mp hm
    exact ha
  have hreturned : Addressed symbols [.returned owner c (w.call N owner a c).1] := by simp [Addressed]
  rw [ht]
  exact h.append ((hcalled.append (addressed_of_isNote fun e he => (hv e he).isNote)).append hreturned)

/-- An operation calls functions at the addresses that its solver knows. -/
theorem Solver.Move.addressed {f f' : Focus σ} (h : Solver.Move N es f f')
    (hs : f.solver.symbols = symbols) (ha : Addressed symbols f.world.client.trace) :
    Addressed symbols f'.world.client.trace := by
  have hnote {events : List Event} (hn : ∀ e ∈ events, e.IsNote) :
      Addressed symbols (f.world.client.trace ++ events) := ha.append (addressed_of_isNote hn)
  cases h with
  | tell n => exact hnote (by simp [Event.IsNote])
  | buffer b => exact ha
  | options he => exact ha
  | call he hc => exact World.call_addressed (by rw [hs]) ha
  | resume he hp => exact ha.append (by simp [Addressed])
  | take he => exact hnote (by simp [Event.IsNote])
  | drop he => exact hnote (by simp [Event.IsNote])
  | settleTerminate he => exact hnote fun e he => (f.bridge.dropEvents_givesBack _ .terminate e he).isNote
  | settleExporter he => exact hnote fun e he => (f.bridge.dropEvents_givesBack _ .exporter e he).isNote

end Addressed

theorem Call.entry_of_handle? {c : Call} (h : c.handle? = none) :
    c.entry = .init ∨ c.entry = .signature := by
  cases c with
  | init => exact .inl rfl
  | signature => exact .inr rfl
  | _ => cases h

namespace Stage

/-- Each function is called at its own address, and the solvers know these addresses. -/
structure Bound (symbols : Symbols) (st : Stage σ) : Prop where
  solvers : ∀ x, st.HasSolver x → x.symbols = symbols
  called : Addressed symbols st.world.client.trace

variable {symbols : Symbols} {st st' : Stage σ}

/-- Moves in which no function is called but through a solver. -/
theorem Move.bound (h : Move N es st st') (hi : .init ∉ es) (hg : .signature ∉ es)
    (hs : st.solvers.keys.Nodup) (hb : st.Bound symbols) : st'.Bound symbols := by
  cases h with
  | tell n => exact ⟨hb.solvers, hb.called.append (addressed_of_isNote (by simp [Event.IsNote]))⟩
  | unload => exact ⟨hb.solvers, hb.called.append (addressed_of_isNote (by simp [Event.IsNote]))⟩
  | ask he hc =>
    rcases Call.entry_of_handle? hc with h | h <;> rw [h] at he
    · exact absurd he hi
    · exact absurd he hg
  | @operate key solver f hk h =>
    have hsolver : solver.symbols = symbols := hb.solvers solver (.inl ⟨key, hk⟩)
    refine ⟨fun x hx => ?_, h.addressed hsolver hb.called⟩
    rcases hasSolver_set hx with rfl | hx
    · exact h.solver_eq.2.2.trans hsolver
    · exact hb.solvers x hx
  | beget he hn => exact absurd he hi
  | keep hn hk => exact ⟨fun x hx => hb.solvers x (hasSolver_keep hn hx), hb.called⟩
  | @finish key solver events he hk ht =>
    have hsolver : solver.symbols = symbols := hb.solvers solver (.inl ⟨key, hk⟩)
    refine ⟨fun x hx => hb.solvers x (hasSolver_erase hs hx), ?_⟩
    obtain ⟨notes, hnotes, hn⟩ :=
      Solver.close_noted_trace ((⟨solver, st.world⟩ : Focus σ).call N (.release solver.handle)).2 ht
    rw [hnotes]
    exact (World.call_addressed (by rw [hsolver]) hb.called).append (addressed_of_isNote hn)

theorem Moves.bound (h : Moves N es st st') (hi : .init ∉ es) (hg : .signature ∉ es)
    (hs : st.Sound) (hb : st.Bound symbols) : st'.Bound symbols :=
  Moves.induct (fun _ _ hm hs hb => hm.bound hi hg hs.keys hb) h hs hb

/-- A function is called that needs no solver. -/
theorem Bound.asked (hb : st.Bound symbols) {a : Address} {c : Call} (ha : a = symbols c.entry) :
    Bound symbols { st with world := (st.world.call N none a c).2 } :=
  ⟨hb.solvers, World.call_addressed ha hb.called⟩

theorem Bound.noted (hb : st.Bound symbols) {events : List Event} (hn : ∀ e ∈ events, e.IsNote) :
    Bound symbols { st with world := st.world.note events } :=
  ⟨hb.solvers, hb.called.append (addressed_of_isNote hn)⟩

theorem Bound.beget (hb : st.Bound symbols) (handle : Handle) :
    Bound symbols { st with
      world := st.world.opened handle, newborn := some (st.world.newborn symbols handle) } := by
  refine ⟨?_, hb.called.append (addressed_of_isNote (by simp [Event.IsNote]))⟩
  rintro x (⟨key, hk⟩ | hn)
  · exact hb.solvers x (.inl ⟨key, hk⟩)
  · cases hn
    rfl

end Stage

namespace Session

variable {s : Session σ} {symbols : Symbols} {path : String}

/-- The library, while it is there, has these functions, which were found at this path. -/
def Offers (symbols : Symbols) (path : String) (s : Session σ) : Prop :=
  ∀ l, s.library = some l → l.symbols = symbols ∧ l.origin = some path

theorem Offers.leave (h : s.Offers symbols path) : s.leave.Offers symbols path := by
  intro l hl
  unfold Session.leave at hl
  cases hlib : s.library with
  | none =>
    rw [hlib] at hl
    exact h l hl
  | some l₀ =>
    simp only [hlib] at hl
    have hleave : l₀.leave = some l := by
      split_ifs at hl <;> exact hl
    unfold Library.leave at hleave
    split_ifs at hleave
    cases hleave
    exact h l₀ hlib

theorem Offers.afterEnd (h : s.Offers symbols path) (key : Int) (w : World σ) :
    (s.afterEnd key w).Offers symbols path :=
  Offers.leave (s := { s with world := w, solvers := s.solvers.erase key }) h

theorem Offers.dropSolver (h : s.Offers symbols path) (key : Int) :
    (s.dropSolver N key).Offers symbols path := by
  unfold Session.dropSolver
  cases s.solvers.get? key with
  | none => exact h
  | some solver => exact h.afterEnd key _

/-- The library, while it is there, has these functions, each of which is called at its own address. -/
structure Bound (symbols : Symbols) (path : String) (s : Session σ) : Prop where
  offers : s.Offers symbols path
  stage : s.stage.Bound symbols

theorem bound_create (hs : s.stage.Sound) (h : s.Bound symbols path) (key : Int) :
    (s.create N key).2.Bound symbols path := by
  unfold create onInterface
  cases hl : s.interface? with
  | none => exact h
  | some l =>
    obtain ⟨rfl, horigin⟩ := h.offers l (interface?_eq_some hl).2
    let called := s.world.call N none (l.symbols .init) .init
    have hask : Stage.Move N [.init] s.stage { s.stage with world := called.2 } :=
      .ask (List.mem_singleton.mpr rfl) rfl
    have hasked : Stage.Bound l.symbols { s.stage with world := called.2 } := h.stage.asked rfl
    dsimp only
    rw [create_apply]
    dsimp only
    split_ifs
    · let told : Stage σ := { s.stage with world := called.2.note [.notice .created] }
      let x := told.world.newborn l.symbols called.1.handle
      let opened : Session σ := { s with world := told.world.opened called.1.handle }
      have htell : Stage.Move N [.init] { s.stage with world := called.2 } told := .tell .created
      have htold : told.Bound l.symbols := hasked.noted (by simp [Event.IsNote])
      have hborn : (opened.stageWith (some x)).Bound l.symbols := htold.beget _
      have hsound : (opened.stageWith (some x)).Sound := (htell.sound (hask.sound hs)).beget rfl _ _
      have hkeep : Stage.Moves N [.release] (opened.stageWith (some x)) (opened.keepSolver N l key x).stage :=
        stage_keepSolver (s := opened) (List.mem_singleton.mpr rfl) hs.keys l key x
      have hshared : Offers l.symbols path { opened with library := some l.share } := by
        rintro l' ⟨⟩
        exact ⟨rfl, horigin⟩
      exact ⟨hshared.dropSolver key, Stage.Moves.bound hkeep (by decide) (by decide) hsound hborn⟩
    · exact ⟨h.offers, hasked.noted (by simp [Event.IsNote])⟩

theorem bound_signature (h : s.Bound symbols path) : (s.step N .signature).2.Bound symbols path := by
  simp only [step, onInterface]
  cases hl : s.interface? with
  | none => exact h
  | some l =>
    obtain ⟨rfl, -⟩ := h.offers l (interface?_eq_some hl).2
    have hasked : Stage.Bound l.symbols { s.stage with
        world := (s.world.call N none (l.symbols .signature) .signature).2 } := h.stage.asked rfl
    refine ⟨h.offers, ?_⟩
    dsimp only
    rw [signature_apply]
    dsimp only
    split_ifs
    · exact hasked
    · exact hasked.noted (by simp [Event.IsNote])

theorem offers_step (h : s.Offers symbols path) {action : Step} (hc : ∀ key, action ≠ .create key) :
    (s.step N action).2.Offers symbols path := by
  cases hq : action.concernsUsers with
  | false =>
    rw [Offers, (quiet_step hq).library]
    exact h
  | true =>
    cases action with
    | create key => exact absurd rfl (hc key)
    | cloneInterface =>
      simp only [step, onInterface]
      cases hl : s.interface? with
      | none => exact h
      | some l =>
        rintro l' ⟨⟩
        exact h l (interface?_eq_some hl).2
    | dropInterface =>
      simp only [step, dropInterface]
      split_ifs
      · exact h
      · exact h.leave
    | release key =>
      simp only [step, releaseSolver, onSolver]
      cases s.solvers.get? key with
      | none => exact h
      | some solver => exact h.afterEnd key _
    | drop key =>
      simp only [step, onSolver]
      cases s.solvers.get? key with
      | none => exact h
      | some solver => exact h.dropSolver key
    | _ => cases hq

/-- In a turn functions are called at their own addresses. Only a solver that is made and the signature
need no solver for that. -/
theorem bound_turn (hs : s.stage.Sound) (h : s.Bound symbols path) (t : Turn σ) :
    (s.turn N t).2.Bound symbols path := by
  cases t with
  | native d =>
    obtain ⟨events, ht, hv⟩ := (d.run_visits s.world.client).events
    refine ⟨h.offers, h.stage.solvers, ?_⟩
    show Addressed symbols (d.run s.world.client).2.trace
    rw [ht]
    exact h.stage.called.append (addressed_of_isNote fun e he => (hv e he).isNote)
  | client action =>
    by_cases hcreate : ∃ key, action = .create key
    · obtain ⟨key, rfl⟩ := hcreate
      exact bound_create hs h key
    · by_cases hsignature : action = .signature
      · subst hsignature
        exact bound_signature h
      · have hc : ∀ key, action ≠ .create key := fun key ha => hcreate ⟨key, ha⟩
        refine ⟨offers_step h.offers hc, Stage.Moves.bound (step_moves hs.keys action) ?_ ?_ hs h.stage⟩
        · cases action with
          | create key => exact absurd rfl (hc key)
          | _ => simp [Step.entries]
        · cases action with
          | signature => exact absurd rfl hsignature
          | _ => simp [Step.entries]

/-- **In all turns functions are called at their own addresses.** By induction on the turns. -/
theorem bound_after (hs : s.stage.Sound) (h : s.Bound symbols path) (turns : List (Turn σ)) :
    (s.after N turns).Bound symbols path := by
  induction turns generalizing s with
  | nil => exact h
  | cons t ts ih => exact ih (sound_turn hs t) (bound_turn hs h t)

/-! ## Loads -/

/-- What comes of a load: the answer, the session, and the resolver afterwards. -/
structure Loads (N : Native σ) (R : Resolver ρ) (path : String) (r : ρ)
    (result : (Answer × Session σ) × ρ) : Prop where
  /-- The resolver is asked for the names in order, up to the first that it does not find. -/
  asked : ∃ n, IsGreatest {n | Reaches (R.Finds soughtNames r) soughtNames.length n} n ∧
    requests result.1.2.trace = soughtNames.take n ∧ result.2 = R.asked (soughtNames.take n) r
  answered : ∃ outcome, result.1.1 = .loaded outcome
  ok_iff : result.1.1 = .loaded (.ok ()) ↔ ∀ k < soughtNames.length, R.Finds soughtNames r k
  error_iff (e : Failure) : result.1.1 = .loaded (.error e) ↔
    ∃ k name answer, FirstFails (R.Finds soughtNames r) soughtNames.length k ∧
      soughtNames[k]? = some name ∧ R.answerAt soughtNames r k = some answer ∧
      e = .notLoaded path (missing name answer)
  /-- An interface is held, and each function is called at the address that was answered to its name. -/
  loaded : result.1.1 = .loaded (.ok ()) → result.1.2.interface?.isSome ∧
    ∀ turns, let s := result.1.2.after N turns
      (∀ l, s.interface? = some l → (s.step N .origin).1 = .done (.origin (some path) l.shown)) ∧
      ∀ owner a c, .called owner a c ∈ s.trace →
        ∃ k, soughtNames[k]? = some c.entry.name ∧ R.answerAt soughtNames r k = some (.ok a)
  /-- There is no interface, and no native function is called. -/
  refused : ∀ e, result.1.1 = .loaded (.error e) → ∀ turns, let s := result.1.2.after N turns
    s.interface? = none ∧ callsMade s.trace = []

theorem load_of_resolve_ok {R : Resolver ρ} {path : String} {keeps : Bool} {r : ρ} {native : σ}
    (h : (Symbols.resolve R path r).1 = .ok symbols) :
    (load R path keeps r native).1 = (.loaded (.ok ()),
      { world := (freshWorld native).note (Symbols.resolve R path r).2.1
        library := some ⟨symbols, some path, keeps, 1⟩, interfaces := 1, keeps }) := by
  rcases hr : Symbols.resolve R path r with ⟨e | symbols', events, r'⟩ <;> rw [hr] at h <;> cases h
  simp only [load, hr]

theorem load_of_resolve_error {R : Resolver ρ} {path : String} {keeps : Bool} {r : ρ} {native : σ}
    {e : Failure} (h : (Symbols.resolve R path r).1 = .error e) :
    (load R path keeps r native).1 = (.loaded (.error e),
      { world := (freshWorld native).note (Symbols.resolve R path r).2.1
        library := none, interfaces := 0, keeps }) := by
  rcases hr : Symbols.resolve R path r with ⟨e' | symbols', events, r'⟩ <;> rw [hr] at h <;> cases h
  simp only [load, hr]

theorem load_snd (R : Resolver ρ) (path : String) (keeps : Bool) (r : ρ) (native : σ) :
    (load R path keeps r native).2 = (Symbols.resolve R path r).2.2 := by
  rcases hr : Symbols.resolve R path r with ⟨e | symbols, events, r'⟩ <;> simp only [load, hr]

section

variable {R : Resolver ρ} {r : ρ} {keeps : Bool} {native : σ}

theorem load_trace (R : Resolver ρ) (path : String) (keeps : Bool) (r : ρ) (native : σ) :
    (load R path keeps r native).1.2.trace = (Symbols.resolve R path r).2.1 :=
  congrArg (fun st => st.world.client.trace) (load_stage R path keeps r native)

theorem sound_load : (load R path keeps r native).1.2.stage.Sound :=
  sound_of_fresh (load_stage R path keeps r native) (resolveAll_events R path _ _ r)

/-- The functions that are found are those of the session. -/
theorem bound_load (h : (Symbols.resolve R path r).1 = .ok symbols) :
    (load R path keeps r native).1.2.Bound symbols path := by
  constructor
  · rw [load_of_resolve_ok h]
    rintro l ⟨⟩
    exact ⟨rfl, rfl⟩
  · rw [load_stage]
    refine ⟨?_, addressed_of_isNote fun e he => (resolveAll_events R path _ _ r e he).2⟩
    rintro x (⟨key, hk⟩ | hn)
    · cases hk
    · cases hn

theorem origin_of_offers (h : s.Offers symbols path) {l : Library} (hl : s.interface? = some l) :
    (s.step N .origin).1 = .done (.origin (some path) l.shown) := by
  simp only [step, onInterface, hl]
  rw [(h l (interface?_eq_some hl).2).2]

/-- What comes of a load is what comes of looking for the functions. -/
theorem loads_load : Loads N R path r (load R path keeps r native) := by
  have hasked : ∃ n, IsGreatest {n | Reaches (R.Finds soughtNames r) soughtNames.length n} n ∧
      requests (load R path keeps r native).1.2.trace = soughtNames.take n ∧
      (load R path keeps r native).2 = R.asked (soughtNames.take n) r := by
    rw [load_trace, load_snd]
    exact Symbols.resolve_asked R path r
  cases hr : (Symbols.resolve R path r).1 with
  | ok symbols =>
    have hanswer : (load R path keeps r native).1.1 = .loaded (.ok ()) := by rw [load_of_resolve_ok hr]
    have hfinds : ∀ k < soughtNames.length, R.Finds soughtNames r k :=
      Symbols.resolve_ok_iff.mp ⟨symbols, hr⟩
    refine ⟨hasked, ⟨_, hanswer⟩, iff_of_true hanswer hfinds, fun e => iff_of_false (by simp [hanswer]) ?_,
      fun _ => ⟨?_, fun turns => ?_⟩, fun e he => ?_⟩
    · rintro ⟨k, name, answer, hk, -⟩
      exact hk.not_all hfinds
    · rw [load_of_resolve_ok hr]
      rfl
    · have hb : ((load R path keeps r native).1.2.after N turns).Bound symbols path :=
        bound_after sound_load (bound_load hr) turns
      refine ⟨fun l hl => origin_of_offers hb.offers hl, fun owner a c hm => ?_⟩
      obtain ⟨k, hk⟩ := List.getElem?_of_mem (EntryPoint.mem_all c.entry)
      refine ⟨k, soughtNames_of_all hk, ?_⟩
      rw [hb.stage.called owner a c hm]
      exact Symbols.resolve_addresses hr hk
    · rw [hanswer] at he
      cases he
  | error e =>
    have hanswer : (load R path keeps r native).1.1 = .loaded (.error e) := by
      rw [load_of_resolve_error hr]
    have hmisses := Symbols.resolve_error_iff.mp hr
    refine ⟨hasked, ⟨_, hanswer⟩, iff_of_false (by simp [hanswer]) ?_, fun e' => ?_, fun hl => ?_,
      fun e' he turns => ?_⟩
    · obtain ⟨k, name, answer, hk, -⟩ := hmisses
      exact hk.not_all
    · rw [hanswer, ← Symbols.resolve_error_iff, hr]
      simp
    · rw [hanswer] at hl
      cases hl
    · obtain ⟨hnobody, hcalls⟩ := load_of_error he
      obtain ⟨hu, hc⟩ := after_of_nobody (N := N) hnobody turns
      exact ⟨if_pos (Nat.add_eq_zero_iff.mp hu).1, hc.trans hcalls⟩

end

/-- **A load asks for the names of the functions in order, up to the first that is not found, and
succeeds if all are found.** Then each function is called ever after at the address that was answered to
its own name. Otherwise the failure names the first that is not found and says why, and no function is
ever called. -/
theorem load_comes_to (N : Native σ) (R : Resolver ρ) (path : String) (keeps : Bool) (r : ρ)
    (native : σ) :
    Loads N R path r (load R path keeps r native) ∧ soughtNames.Nodup ∧
      ∀ name answer, (missing name answer).detail = "symbol " ++ name ++ " not found: " ++
        match answer with
        | .error detail => detail
        | .ok _ => "the address is null" := by
  refine ⟨loads_load, nodup_soughtNames, fun name answer => ?_⟩
  cases answer with
  | error detail => rfl
  | ok a =>
    show "symbol " ++ name ++ " not found: the address is null" = _
    rw [String.append_assoc, String.append_assoc, String.append_assoc]
    rfl

/-- Whoever finds an address only for the first two names is asked for three. -/
example : let R : Resolver Nat := ⟨fun _ n => (if n < 2 then .ok (n + 7) else .ok 0, n + 1)⟩
    let result := load R "lib" false 0 ()
    result.1.1 = .loaded (.error (.notLoaded "lib" (.null "ipasir2_add"))) ∧ result.2 = 3 :=
  ⟨rfl, rfl⟩

end Session

end SatClient
