import Mathlib.Order.Bounds.Defs

/-!
# Attempts one after the other

Attempts are made one after the other, up to the first that does not succeed. These are all attempts, or
those up to one that fails: the most of which each but the last has to succeed.

* `Reaches`: attempts of which each succeeds, but possibly the last
* `FirstFails`: the first attempt that does not succeed; `FirstFails.unique`: there is at most one
* `isGreatest_reaches_length`, `FirstFails.isGreatest_reaches`: how many attempts are made
-/

namespace SatClient

variable {good : Nat → Prop} {length k : Nat}

/-- Of the first `n` attempts each succeeds, but possibly the last. -/
def Reaches (good : Nat → Prop) (length n : Nat) : Prop := n ≤ length ∧ ∀ k, k + 1 < n → good k

/-- The attempt `k` is the first that does not succeed. -/
structure FirstFails (good : Nat → Prop) (length k : Nat) : Prop where
  made : k < length
  fails : ¬ good k
  before : ∀ j < k, good j

theorem isGreatest_reaches_length (h : ∀ k < length, good k) :
    IsGreatest {n | Reaches good length n} length :=
  ⟨⟨Nat.le_refl _, fun k hk => h k (Nat.lt_of_succ_lt hk)⟩, fun _ hn => hn.1⟩

namespace FirstFails

theorem isGreatest_reaches (h : FirstFails good length k) :
    IsGreatest {n | Reaches good length n} (k + 1) :=
  ⟨⟨h.made, fun j hj => h.before j (Nat.lt_of_succ_lt_succ hj)⟩,
    fun _ hn => Nat.le_of_not_lt fun hlong => h.fails (hn.2 k hlong)⟩

theorem unique {k' : Nat} (h : FirstFails good length k) (h' : FirstFails good length k') : k = k' := by
  rcases Nat.lt_trichotomy k k' with hlt | rfl | hlt
  · exact absurd (h'.before k hlt) h.fails
  · rfl
  · exact absurd (h.before k' hlt) h'.fails

theorem not_all (h : FirstFails good length k) : ¬ ∀ j < length, good j :=
  fun hall => h.fails (hall k h.made)

/-- Behind an attempt that succeeds. -/
theorem succ (hgood : good 0) (h : FirstFails (fun j => good (j + 1)) length k) :
    FirstFails good (length + 1) (k + 1) where
  made := Nat.succ_lt_succ h.made
  fails := h.fails
  before j hj := by
    cases j with
    | zero => exact hgood
    | succ j => exact h.before j (Nat.lt_of_succ_lt_succ hj)

theorem zero (h : ¬ good 0) : FirstFails good (length + 1) 0 where
  made := Nat.succ_pos _
  fails := h
  before _ hj := absurd hj (Nat.not_lt_zero _)

end FirstFails

theorem all_good_succ (hgood : good 0) (h : ∀ j < length, good (j + 1)) : ∀ j < length + 1, good j := by
  intro j hj
  cases j with
  | zero => exact hgood
  | succ j => exact h j (Nat.lt_of_succ_lt_succ hj)

end SatClient
