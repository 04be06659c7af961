import SatClient.Proofs.Loading
import SatClient.Shelf

/-!
# Loading a library from its path

A linker may not be able to open what is at a path. What it opens is asked for the functions of a library,
and may lack some of them.

* **`Library.load_by_linker`**: what comes of loading a library from its path, by any linker
* **`Session.loadFrom_comes_to`**: in the session that begins so, functions are called where they were found
* `Shelf.finds_iff`: the functions that are found in a library on the shelf
* **`Shelf.load_ok_iff`**, **`Shelf.load_error_iff`**: it is loaded if it lacks no function; otherwise the
  failure names the first that it lacks
-/

namespace SatClient

variable {σ ρ : Type}

namespace Library

variable {L : Linker ρ} {path : String} {r : ρ}

theorem load_of_openAt_error {detail : String} (h : L.openAt path = .error detail) :
    load L path = (.error (.notLoaded path (.library detail)),
      [.notice (.loading path), .notice (.notOpened path)]) := by
  simp only [load, h]

/-- The functions are looked for in what has been opened. -/
theorem load_of_openAt_ok (h : L.openAt path = .ok r) :
    (load L path).1 = (Symbols.resolve L.resolver path r).1.map (⟨·, some path, true, 1⟩) ∧
      requests (load L path).2 = requests (Symbols.resolve L.resolver path r).2.1 := by
  rcases hr : Symbols.resolve L.resolver path r with ⟨e | symbols, events, r'⟩ <;>
    simp only [load, h, hr]
  · exact ⟨rfl, rfl⟩
  · refine ⟨rfl, ?_⟩
    show (events ++ [Event.notice (.loaded path)]).filterMap Event.request? = _
    rw [List.filterMap_append]
    exact List.append_nil _

/-- What comes of loading a library from its path. -/
structure LoadedBy (L : Linker ρ) (path : String) (result : Except Failure Library × List Event) :
    Prop where
  /-- What has been opened is asked for the names in order, up to the first that it does not find; where
  nothing has been opened nothing is asked for. -/
  asked : (∀ r, L.openAt path = .ok r →
      ∃ n, IsGreatest {n | Reaches (L.resolver.Finds soughtNames r) soughtNames.length n} n ∧
        requests result.2 = soughtNames.take n) ∧
    ((∀ r, L.openAt path ≠ .ok r) → requests result.2 = [])
  ok_iff : (∃ l, result.1 = .ok l) ↔
    ∃ r, L.openAt path = .ok r ∧ ∀ k < soughtNames.length, L.resolver.Finds soughtNames r k
  error_iff (e : Failure) : result.1 = .error e ↔
    (∃ detail, L.openAt path = .error detail ∧ e = .notLoaded path (.library detail)) ∨
      ∃ r k name answer, L.openAt path = .ok r ∧
        FirstFails (L.resolver.Finds soughtNames r) soughtNames.length k ∧
        soughtNames[k]? = some name ∧ L.resolver.answerAt soughtNames r k = some answer ∧
        e = .notLoaded path (missing name answer)
  /-- Each function has the address that was answered to its own name. -/
  addresses (l : Library) : result.1 = .ok l → l.origin = some path ∧ l.keeps = true ∧
    ∀ r, L.openAt path = .ok r → ∀ k e, EntryPoint.all[k]? = some e →
      L.resolver.answerAt soughtNames r k = some (.ok (l.symbols e))

/-- **What comes of loading a library from its path**, by any linker. -/
theorem load_by_linker (L : Linker ρ) (path : String) : LoadedBy L path (load L path) := by
  cases ho : L.openAt path with
  | error detail =>
    have hno (r : ρ) : L.openAt path ≠ .ok r := by simp [ho]
    rw [load_of_openAt_error ho]
    refine ⟨⟨fun r hr => absurd hr (hno r), fun _ => rfl⟩, iff_of_false nofun ?_, fun e => ?_, nofun⟩
    · rintro ⟨r, hr, -⟩
      exact hno r hr
    · constructor
      · rintro ⟨⟩
        exact .inl ⟨detail, ho, rfl⟩
      · rintro (⟨detail', hd, rfl⟩ | ⟨r, -, -, -, hr, -⟩)
        · cases ho.symm.trans hd
          rfl
        · exact absurd hr (hno r)
  | ok r =>
    have honly {r' : ρ} (hr : L.openAt path = .ok r') : r' = r := Except.ok.inj (hr.symm.trans ho)
    obtain ⟨hload, hrequests⟩ := load_of_openAt_ok ho
    refine ⟨⟨fun r' hr => ?_, fun hno => absurd ho (hno r)⟩, ?_, fun e => ?_, fun l hl => ?_⟩
    · obtain ⟨n, hn, hasked, -⟩ := Symbols.resolve_asked L.resolver path r
      rw [honly hr, hrequests]
      exact ⟨n, hn, hasked⟩
    · have hok : (∃ l, (load L path).1 = .ok l) ↔
          ∃ symbols, (Symbols.resolve L.resolver path r).1 = .ok symbols := by
        rw [hload]
        cases (Symbols.resolve L.resolver path r).1 <;> simp [Except.map]
      rw [hok, Symbols.resolve_ok_iff]
      exact ⟨fun h => ⟨r, ho, h⟩, fun ⟨r', hr, h⟩ => honly hr ▸ h⟩
    · have herror : (load L path).1 = .error e ↔ (Symbols.resolve L.resolver path r).1 = .error e := by
        rw [hload]
        cases (Symbols.resolve L.resolver path r).1 <;> simp [Except.map]
      rw [herror, Symbols.resolve_error_iff]
      constructor
      · rintro ⟨k, name, answer, h⟩
        exact .inr ⟨r, k, name, answer, ho, h⟩
      · rintro (⟨detail, hd, -⟩ | ⟨r', k, name, answer, hr, h⟩)
        · cases ho.symm.trans hd
        · cases honly hr
          exact ⟨k, name, answer, h⟩
    · rw [hload] at hl
      cases hs : (Symbols.resolve L.resolver path r).1 with
      | error e =>
        rw [hs] at hl
        cases hl
      | ok symbols =>
        rw [hs] at hl
        cases hl
        refine ⟨rfl, rfl, fun r' hr k e hk => ?_⟩
        rw [honly hr]
        exact Symbols.resolve_addresses hs hk

theorem load_ofSearch (L : Linker ρ) (path : String) : ∀ e ∈ (load L path).2, e.OfSearch := by
  cases ho : L.openAt path with
  | error detail =>
    rw [load_of_openAt_error ho]
    simp [Event.OfSearch]
  | ok r =>
    have hsearch : ∀ e ∈ (Symbols.resolve L.resolver path r).2.1, e.OfSearch :=
      Session.resolveAll_ofSearch L.resolver path EntryPoint.all _ r
    rcases hr : Symbols.resolve L.resolver path r with ⟨e | symbols, events, r'⟩ <;>
      rw [hr] at hsearch <;> simp only [load, ho, hr]
    · exact List.forall_mem_cons.mpr ⟨trivial, hsearch⟩
    · exact List.forall_mem_append.mpr
        ⟨List.forall_mem_cons.mpr ⟨trivial, hsearch⟩, List.forall_mem_singleton.mpr trivial⟩

end Library

/-! ## Sessions -/

namespace Session

variable {N : Native σ} {L : Linker ρ} {path : String} {native : σ}

theorem loadFrom_stage (L : Linker ρ) (path : String) (native : σ) :
    (loadFrom L path native).2.stage =
      ⟨{ native, client := { trace := (Library.load L path).2 } }, [], none⟩ := by
  rcases hl : Library.load L path with ⟨e | l, events⟩ <;> simp only [loadFrom, hl] <;> rfl

theorem loadFrom_answer (L : Linker ρ) (path : String) (native : σ) :
    (loadFrom L path native).1 = .loaded ((Library.load L path).1.map fun _ => ()) := by
  rcases hl : Library.load L path with ⟨e | l, events⟩ <;> simp only [loadFrom, hl] <;> rfl

theorem sound_loadFrom : (loadFrom L path native).2.stage.Sound :=
  sound_of_fresh (loadFrom_stage L path native) fun e he => (Library.load_ofSearch L path e he).note

/-- The functions of the library are those of the session. -/
theorem bound_loadFrom {l : Library} (h : (Library.load L path).1 = .ok l) :
    (loadFrom L path native).2.Bound l.symbols path := by
  rcases hl : Library.load L path with ⟨e | l', events⟩ <;> rw [hl] at h <;> cases h
  constructor
  · have horigin := ((Library.load_by_linker L path).addresses l (by rw [hl])).1
    simp only [loadFrom, hl]
    rintro l' ⟨⟩
    exact ⟨rfl, horigin⟩
  · rw [loadFrom_stage]
    refine ⟨?_, addressed_of_isNote fun e he => (Library.load_ofSearch L path e he).note.2⟩
    rintro x (⟨key, hk⟩ | hn)
    · cases hk
    · cases hn

/-- Without a library no native function is called. -/
theorem loadFrom_of_error {e : Failure} (h : (Library.load L path).1 = .error e) (turns : List (Turn σ)) :
    callsMade ((loadFrom L path native).2.after N turns).trace = [] := by
  have hnobody : (loadFrom L path native).2.users = 0 := by
    rcases hl : Library.load L path with ⟨e' | l, events⟩ <;> rw [hl] at h <;> cases h
    simp only [loadFrom, hl]
    rfl
  have ht : (loadFrom L path native).2.trace = (Library.load L path).2 :=
    congrArg (fun st => st.world.client.trace) (loadFrom_stage L path native)
  rw [(after_of_nobody hnobody turns).2, ht]
  exact callsMade_of_isNote fun e he => (Library.load_ofSearch L path e he).note.2

/-- **A session that begins with a library which is loaded from its path** has an interface just if the
library could be opened and offers all functions, and calls each at the address that was found there under
its name. -/
theorem loadFrom_comes_to (N : Native σ) (L : Linker ρ) (path : String) (native : σ) :
    let result := loadFrom L path native
    (∃ outcome, result.1 = .loaded outcome) ∧
      (result.1 = .loaded (.ok ()) ↔
        ∃ r, L.openAt path = .ok r ∧ ∀ k < soughtNames.length, L.resolver.Finds soughtNames r k) ∧
      ∀ turns owner a c, .called owner a c ∈ (result.2.after N turns).trace →
        ∃ r k, L.openAt path = .ok r ∧ soughtNames[k]? = some c.entry.name ∧
          L.resolver.answerAt soughtNames r k = some (.ok a) := by
  intro result
  have hanswer : result.1 = _ := loadFrom_answer L path native
  refine ⟨⟨_, hanswer⟩, ?_, fun turns owner a c hm => ?_⟩
  · rw [hanswer, ← (Library.load_by_linker L path).ok_iff]
    cases (Library.load L path).1 <;> simp [Except.map]
  · cases hl : (Library.load L path).1 with
    | error e =>
      have hm' : (owner, c) ∈ callsMade (result.2.after N turns).trace :=
        List.mem_filterMap.mpr ⟨_, hm, rfl⟩
      rw [loadFrom_of_error hl turns] at hm'
      cases hm'
    | ok l =>
      have hb : (result.2.after N turns).Bound l.symbols path :=
        bound_after sound_loadFrom (bound_loadFrom hl) turns
      obtain ⟨r, ho, -⟩ := (Library.load_by_linker L path).ok_iff.mp ⟨l, hl⟩
      obtain ⟨k, hk⟩ := List.getElem?_of_mem (EntryPoint.mem_all c.entry)
      refine ⟨r, k, ho, soughtNames_of_all hk, ?_⟩
      rw [hb.stage.called owner a c hm]
      exact ((Library.load_by_linker L path).addresses l hl).2.2 r ho k _ hk

end Session

/-! ## Libraries on the shelf -/

namespace Shelf

theorem asked_eq (names : List String) (entries : List EntryPoint) :
    resolver.asked names entries = entries := by
  induction names with
  | nil => rfl
  | cons name rest ih =>
    have hone : (resolver.ask name entries).2 = entries := by
      simp only [resolver]
      cases entries.findIdx? fun e => e.name = name <;> rfl
    show resolver.asked rest (resolver.ask name entries).2 = _
    rw [hone, ih]

/-- The answer to the name of a function is an address just if the function is offered. -/
theorem answerAt_eq (entries : List EntryPoint) {k : Nat} {e : EntryPoint}
    (hk : EntryPoint.all[k]? = some e) :
    ∃ answer, resolver.answerAt soughtNames entries k = some answer ∧
      ((∃ a, answer = .ok a ∧ a ≠ 0) ↔ e ∈ entries) ∧ (e ∉ entries → answer = .error "") := by
  have hmem : (∃ x ∈ entries, x.name = e.name) ↔ e ∈ entries := by simp [EntryPoint.name_inj]
  refine ⟨(resolver.ask e.name entries).1, ?_, ?_⟩
  · rw [Resolver.answerAt, soughtNames_of_all hk, asked_eq]
    rfl
  · rw [← hmem]
    simp only [resolver]
    cases hf : entries.findIdx? fun x => x.name = e.name with
    | none =>
      have hno : ¬ ∃ x ∈ entries, x.name = e.name := by simpa using hf
      exact ⟨iff_of_false (by simp) hno, fun _ => rfl⟩
    | some i =>
      have hi : (entries.findIdx? fun x => x.name = e.name).isSome := by simp [hf]
      have hyes : ∃ x ∈ entries, x.name = e.name := by simpa using hi
      exact ⟨iff_of_true ⟨i + 1, rfl, Nat.succ_ne_zero i⟩ hyes, fun h => absurd hyes h⟩

/-- A function is found just if it is offered. -/
theorem finds_iff (entries : List EntryPoint) {k : Nat} {e : EntryPoint} (hk : EntryPoint.all[k]? = some e) :
    resolver.Finds soughtNames entries k ↔ e ∈ entries := by
  obtain ⟨answer, hanswer, hfound, -⟩ := answerAt_eq entries hk
  rw [Resolver.Finds, hanswer, ← hfound]
  simp only [Option.some.injEq]

theorem openAt_eq_ok_iff {path : String} {entries : List EntryPoint} :
    linker.openAt path = .ok entries ↔ offered? path = some entries := by
  simp only [linker]
  cases offered? path <;> simp

theorem openAt_eq_error_iff {path detail : String} :
    linker.openAt path = .error detail ↔ offered? path = none ∧ detail = "" := by
  simp only [linker]
  cases offered? path <;> simp [eq_comm]

/-- **A library on the shelf is loaded if and only if it offers every function.** -/
theorem load_ok_iff (path : String) : (∃ l, (Library.load linker path).1 = .ok l) ↔
    ∃ entries, offered? path = some entries ∧ ∀ e, e ∈ entries := by
  rw [(Library.load_by_linker linker path).ok_iff]
  refine exists_congr fun entries => and_congr openAt_eq_ok_iff ⟨fun h e => ?_, fun h k hk => ?_⟩
  · obtain ⟨k, hk⟩ := List.getElem?_of_mem (EntryPoint.mem_all e)
    have hlt : k < soughtNames.length := (List.getElem?_eq_some_iff.mp hk).1
    exact (finds_iff entries hk).mp (h k hlt)
  · obtain ⟨e, he⟩ := all_of_lt hk
    exact (finds_iff entries he).mpr (h e)

/-- **A library that is not loaded is not on the shelf, or the failure names the first function that it
lacks.** -/
theorem load_error_iff (path : String) (failure : Failure) :
    (Library.load linker path).1 = .error failure ↔
      (offered? path = none ∧ failure = .notLoaded path (.library "")) ∨
        ∃ entries, ∃ k : Nat, ∃ e, offered? path = some entries ∧ EntryPoint.all[k]? = some e ∧
          e ∉ entries ∧ (∀ j < k, ∀ e', EntryPoint.all[j]? = some e' → e' ∈ entries) ∧
          failure = .notLoaded path (.symbol e.name "") := by
  rw [(Library.load_by_linker linker path).error_iff]
  refine or_congr ?_ (exists_congr fun entries => ?_)
  · simp only [openAt_eq_error_iff]
    exact ⟨fun ⟨_, ⟨ho, hd⟩, hf⟩ => ⟨ho, hd ▸ hf⟩, fun ⟨ho, hf⟩ => ⟨"", ⟨ho, rfl⟩, hf⟩⟩
  · constructor
    · rintro ⟨k, name, answer, ho, hk, hname, hat, rfl⟩
      obtain ⟨e, he⟩ := all_of_lt hk.made
      obtain ⟨answer', hat', -, hmissing⟩ := answerAt_eq entries he
      have hlacks : e ∉ entries := fun hm => hk.fails ((finds_iff entries he).mpr hm)
      have hbefore (j : Nat) (hj : j < k) (e' : EntryPoint) (he' : EntryPoint.all[j]? = some e') :
          e' ∈ entries := (finds_iff entries he').mp (hk.before j hj)
      cases hat.symm.trans hat'
      cases hname.symm.trans (soughtNames_of_all he)
      rw [hmissing hlacks]
      exact ⟨k, e, openAt_eq_ok_iff.mp ho, he, hlacks, hbefore, rfl⟩
    · rintro ⟨k, e, ho, he, hlacks, hbefore, rfl⟩
      obtain ⟨answer, hat, -, hmissing⟩ := answerAt_eq entries he
      rw [hmissing hlacks] at hat
      have hlt : k < EntryPoint.all.length := (List.getElem?_eq_some_iff.mp he).1
      refine ⟨k, e.name, _, openAt_eq_ok_iff.mpr ho, ⟨hlt, fun h => hlacks ((finds_iff entries he).mp h),
        fun j hj => ?_⟩, soughtNames_of_all he, hat, rfl⟩
      obtain ⟨e', he'⟩ := all_of_lt (Nat.lt_trans hj hlt)
      exact (finds_iff entries he').mpr (hbefore j hj e' he')

end Shelf
end SatClient
