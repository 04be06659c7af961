/-!
# Things kept under keys

* `Keyed`: a list of things with their keys, newest last
* `Keyed.keys`, `Keyed.values`, `Keyed.get?`, `Keyed.set`, `Keyed.erase`
* `Keyed.nodup_keys_set`, `Keyed.nodup_keys_erase`: distinct keys stay distinct
* `Keyed.get?_set`, `Keyed.get?_erase`: lookup after a change
* `Keyed.mem_values_of_get?`, `Keyed.exists_get?_of_mem_values`: what is kept is found under a key
* `Keyed.mapValues`: other things under the same keys
-/

namespace SatClient

/-- Things kept under keys. -/
abbrev Keyed (κ α : Type) := List (κ × α)

namespace Keyed

variable {κ α : Type}

def keys (m : Keyed κ α) : List κ := m.map Prod.fst

def values (m : Keyed κ α) : List α := m.map Prod.snd

variable [DecidableEq κ]

def get? : Keyed κ α → κ → Option α
  | [], _ => none
  | (i, a) :: rest, k => if i = k then some a else get? rest k

/-- Keeps something under a key, in the place of what was there. -/
def set : Keyed κ α → κ → α → Keyed κ α
  | [], k, b => [(k, b)]
  | (i, a) :: rest, k, b => if i = k then (k, b) :: rest else (i, a) :: set rest k b

def erase : Keyed κ α → κ → Keyed κ α
  | [], _ => []
  | (i, a) :: rest, k => if i = k then rest else (i, a) :: erase rest k

theorem get?_set (m : Keyed κ α) (k j : κ) (b : α) :
    get? (set m k b) j = if k = j then some b else get? m j := by
  induction m with
  | nil => simp [set, get?]
  | cons p rest ih =>
    obtain ⟨i, a⟩ := p
    by_cases hik : i = k
    · subst hik
      by_cases hij : i = j <;> simp [set, get?, hij]
    · by_cases hij : i = j
      · subst hij
        simp [set, get?, hik, Ne.symm hik]
      · simp [set, get?, hik, hij, ih]

@[simp] theorem get?_set_self (m : Keyed κ α) (k : κ) (b : α) : get? (set m k b) k = some b := by
  simp [get?_set]

theorem get?_set_of_ne (m : Keyed κ α) {k j : κ} (b : α) (h : k ≠ j) :
    get? (set m k b) j = get? m j := by
  simp [get?_set, h]

theorem get?_erase_of_ne (m : Keyed κ α) {k j : κ} (h : k ≠ j) :
    get? (erase m k) j = get? m j := by
  induction m with
  | nil => rfl
  | cons p rest ih =>
    obtain ⟨i, a⟩ := p
    by_cases hik : i = k
    · subst hik
      simp [erase, get?, h]
    · by_cases hij : i = j
      · subst hij
        simp [erase, get?, hik]
      · simp [erase, get?, hik, hij, ih]

theorem get?_eq_none_iff (m : Keyed κ α) (k : κ) : get? m k = none ↔ k ∉ keys m := by
  induction m with
  | nil => simp [get?, keys]
  | cons p rest ih =>
    obtain ⟨i, a⟩ := p
    by_cases hik : i = k
    · simp [get?, keys, hik]
    · have hki : ¬ k = i := fun h => hik h.symm
      simp only [get?, if_neg hik, keys, List.map_cons, List.mem_cons, hki, false_or] at ih ⊢
      exact ih

theorem mem_keys_iff (m : Keyed κ α) (k : κ) : k ∈ keys m ↔ ∃ a, get? m k = some a := by
  rw [← Option.ne_none_iff_exists', ne_eq, get?_eq_none_iff, Decidable.not_not]

theorem mem_values_of_get? {m : Keyed κ α} {k : κ} {a : α} (h : get? m k = some a) :
    a ∈ values m := by
  induction m with
  | nil => cases h
  | cons p rest ih =>
    obtain ⟨i, b⟩ := p
    by_cases hik : i = k
    · simp only [get?, if_pos hik, Option.some.injEq] at h
      simp [values, h]
    · simp only [get?, if_neg hik] at h
      exact List.mem_cons_of_mem _ (ih h)

theorem exists_get?_of_mem_values {m : Keyed κ α} (hm : (keys m).Nodup) {a : α} (h : a ∈ values m) :
    ∃ k, get? m k = some a := by
  induction m with
  | nil => cases h
  | cons p rest ih =>
    obtain ⟨i, b⟩ := p
    obtain ⟨hi, hrest⟩ := List.nodup_cons.mp hm
    rcases List.mem_cons.mp h with rfl | h
    · exact ⟨i, by simp [get?]⟩
    · obtain ⟨k, hk⟩ := ih hrest h
      have hik : i ≠ k := by
        rintro rfl
        exact hi ((mem_keys_iff rest i).mpr ⟨a, hk⟩)
      exact ⟨k, by rw [get?, if_neg hik, hk]⟩

/-! ## Distinct keys -/

theorem keys_set_of_mem {m : Keyed κ α} {k : κ} (h : k ∈ keys m) (b : α) :
    keys (set m k b) = keys m := by
  induction m with
  | nil => cases h
  | cons p rest ih =>
    obtain ⟨i, a⟩ := p
    by_cases hik : i = k
    · subst hik
      simp [set, keys]
    · have hk : k ∈ keys rest := by
        rcases List.mem_cons.mp h with h | h
        · exact absurd h.symm hik
        · exact h
      simp only [set, if_neg hik]
      exact congrArg (i :: ·) (ih hk)

theorem keys_set_of_notMem {m : Keyed κ α} {k : κ} (h : k ∉ keys m) (b : α) :
    keys (set m k b) = keys m ++ [k] := by
  induction m with
  | nil => rfl
  | cons p rest ih =>
    obtain ⟨i, a⟩ := p
    obtain ⟨hki, hk⟩ := not_or.mp (mt List.mem_cons.mpr h)
    simp only [set, if_neg fun e => hki (Eq.symm e)]
    exact congrArg (i :: ·) (ih hk)

theorem nodup_keys_set {m : Keyed κ α} (h : (keys m).Nodup) (k : κ) (b : α) :
    (keys (set m k b)).Nodup := by
  by_cases hk : k ∈ keys m
  · rw [keys_set_of_mem hk]
    exact h
  · rw [keys_set_of_notMem hk, List.nodup_append]
    refine ⟨h, by simp, fun x hx y hy e => hk ?_⟩
    rw [← List.mem_singleton.mp hy, ← e]
    exact hx

theorem keys_erase (m : Keyed κ α) (k : κ) : keys (erase m k) = (keys m).erase k := by
  induction m with
  | nil => rfl
  | cons p rest ih =>
    obtain ⟨i, a⟩ := p
    by_cases hik : i = k
    · subst hik
      simp [erase, keys]
    · simp only [keys, List.map_cons, erase, if_neg hik] at ih ⊢
      rw [List.erase_cons_tail (by simpa using hik), ih]

theorem nodup_keys_erase {m : Keyed κ α} (h : (keys m).Nodup) (k : κ) :
    (keys (erase m k)).Nodup := by
  rw [keys_erase]
  exact h.erase k

theorem get?_erase {m : Keyed κ α} (h : (keys m).Nodup) (k j : κ) :
    get? (erase m k) j = if k = j then none else get? m j := by
  by_cases hkj : k = j
  · rw [if_pos hkj, ← hkj, get?_eq_none_iff, keys_erase]
    exact h.not_mem_erase
  · rw [if_neg hkj, get?_erase_of_ne m hkj]

theorem erase_of_get?_eq_none {m : Keyed κ α} {k : κ} (h : get? m k = none) : erase m k = m := by
  induction m with
  | nil => rfl
  | cons p rest ih =>
    obtain ⟨i, a⟩ := p
    by_cases hik : i = k
    · simp [get?, hik] at h
    · rw [get?, if_neg hik] at h
      rw [erase, if_neg hik, ih h]

/-- Things under distinct keys are told apart by what tells their keys apart. -/
theorem nodup_map_values {m : Keyed κ α} (hm : (keys m).Nodup) {β : Type} {f : α → β}
    (hf : ∀ k k' a a', get? m k = some a → get? m k' = some a' → f a = f a' → k = k') :
    ((values m).map f).Nodup := by
  induction m with
  | nil => exact List.nodup_nil
  | cons p rest ih =>
    obtain ⟨i, b⟩ := p
    obtain ⟨hi, hrest⟩ := List.nodup_cons.mp hm
    have hget {k : κ} {a : α} (hk : get? rest k = some a) : get? ((i, b) :: rest) k = some a := by
      have hik : i ≠ k := by
        rintro rfl
        exact hi ((mem_keys_iff rest i).mpr ⟨a, hk⟩)
      rw [get?, if_neg hik]
      exact hk
    refine List.nodup_cons.mpr ⟨?_, ih hrest fun k k' a a' hk hk' => hf k k' a a' (hget hk) (hget hk')⟩
    intro hb
    obtain ⟨a, ha, hab⟩ := List.mem_map.mp hb
    obtain ⟨k, hk⟩ := exists_get?_of_mem_values hrest ha
    have hik : i = k := hf i k b a (by simp [get?]) (hget hk) hab.symm
    exact hi ((mem_keys_iff rest i).mpr ⟨a, hik ▸ hk⟩)

/-- Nothing is left when everything has been taken away. -/
theorem foldl_erase_perm {m : Keyed κ α} {ks : List κ} (h : ks.Perm (keys m)) :
    ks.foldl erase m = [] := by
  induction ks generalizing m with
  | nil => exact List.map_eq_nil_iff.mp h.nil_eq.symm
  | cons k rest ih =>
    have hk : rest.Perm (keys (erase m k)) := by
      rw [keys_erase, ← List.erase_cons_head k rest]
      exact h.erase k
    exact ih hk

theorem set_set (m : Keyed κ α) (k : κ) (a b : α) : set (set m k a) k b = set m k b := by
  induction m with
  | nil => simp [set]
  | cons p rest ih =>
    obtain ⟨i, c⟩ := p
    by_cases hik : i = k
    · subst hik
      simp [set]
    · simp [set, hik, ih]

theorem set_get?_self {m : Keyed κ α} {k : κ} {a : α} (h : get? m k = some a) : set m k a = m := by
  induction m with
  | nil => cases h
  | cons p rest ih =>
    obtain ⟨i, b⟩ := p
    by_cases hik : i = k
    · subst hik
      simp only [get?, if_true, Option.some.injEq] at h
      simp [set, h]
    · simp only [get?, if_neg hik] at h
      simp [set, hik, ih h]

/-! ## Other things under the same keys -/

section MapValues

variable {β : Type}

/-- What becomes of the things, each under the key it had. -/
def mapValues (f : α → β) (m : Keyed κ α) : Keyed κ β := m.map fun p => (p.1, f p.2)

@[simp] theorem get?_mapValues (f : α → β) (m : Keyed κ α) (k : κ) :
    get? (mapValues f m) k = (get? m k).map f := by
  induction m with
  | nil => rfl
  | cons p rest ih =>
    obtain ⟨i, a⟩ := p
    by_cases hik : i = k
    · simp [mapValues, get?, hik]
    · simpa [mapValues, get?, hik] using ih

@[simp] theorem set_mapValues (f : α → β) (m : Keyed κ α) (k : κ) (a : α) :
    set (mapValues f m) k (f a) = mapValues f (set m k a) := by
  induction m with
  | nil => rfl
  | cons p rest ih =>
    obtain ⟨i, b⟩ := p
    by_cases hik : i = k
    · simp [mapValues, set, hik]
    · simpa [mapValues, set, hik] using ih

@[simp] theorem erase_mapValues (f : α → β) (m : Keyed κ α) (k : κ) :
    erase (mapValues f m) k = mapValues f (erase m k) := by
  induction m with
  | nil => rfl
  | cons p rest ih =>
    obtain ⟨i, b⟩ := p
    by_cases hik : i = k
    · simp [mapValues, erase, hik]
    · simpa [mapValues, erase, hik] using ih

end MapValues

end Keyed
end SatClient
