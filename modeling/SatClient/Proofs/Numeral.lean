import Mathlib.Data.List.Induction
import Mathlib.Tactic.IntervalCases
import SatClient.Proofs.Trimmed
import SatClient.Text.Integer

/-!
# Integers in decimal

The texts that denote integers of 64 bits, and what they denote. An integer is written with as few
digits as it takes; it is read with any number of zeros in front and a sign that may be a plus.

* `Text.Numeral`, `Text.Signed`, `Text.Denotes`: digits, digits with a sign, and those with a value
  that fits 64 bits
* `Text.natural?_eq_some_iff`, `Text.integer?_eq_some_iff`, **`Text.int64?_eq_some_iff`**: the texts
  that are read as integers are those which denote them
* **`Text.denotes_toString`**: an integer as it is written denotes itself
* `Text.integerChars`, `Text.Denotes.mem_integerChars`: nothing but digits and signs is part of an integer
-/

namespace SatClient.Text

/-- Digits that denote a number, of which there is at least one. -/
inductive Numeral : List Char → Nat → Prop
  | digit {d : Nat} (hd : d < 10) : Numeral [d.digitChar] d
  | snoc {ds : List Char} {n d : Nat} (h : Numeral ds n) (hd : d < 10) :
      Numeral (ds ++ [d.digitChar]) (10 * n + d)

/-- Digits with at most one sign, that denote an integer. -/
inductive Signed : List Char → Int → Prop
  | bare {ds : List Char} {n : Nat} (h : Numeral ds n) : Signed ds n
  | plus {ds : List Char} {n : Nat} (h : Numeral ds n) : Signed ('+' :: ds) n
  | minus {ds : List Char} {n : Nat} (h : Numeral ds n) : Signed ('-' :: ds) (-n)

/-- A text that denotes an integer of 64 bits. -/
def Denotes (cs : List Char) (v : Int64) : Prop :=
  ∃ n, Signed cs n ∧ -2 ^ 63 ≤ n ∧ n ≤ 2 ^ 63 - 1 ∧ v = Int64.ofInt n

variable {cs ds : List Char} {n : Nat} {i : Int} {v : Int64}

/-! ## Digits -/

theorem exists_digitChar {c : Char} (h : c.isDigit) : ∃ d < 10, d.digitChar = c := by
  obtain ⟨hlo, hhi⟩ := Char.isDigit_iff_toNat.mp h
  have hlo : 48 ≤ c.toNat := hlo
  have hhi : c.toNat ≤ 57 := hhi
  refine ⟨c.toNat - 48, by omega, ?_⟩
  rw [← Char.ofNat_toNat c]
  generalize c.toNat = k at *
  interval_cases k <;> rfl

theorem digitChar_toNat {d : Nat} (hd : d < 10) : d.digitChar.toNat - '0'.toNat = d := by
  interval_cases d <;> rfl

theorem digitValue_snoc (ds : List Char) {d : Nat} (hd : d < 10) :
    digitValue (ds ++ [d.digitChar]) = 10 * digitValue ds + d := by
  rw [digitValue, List.foldl_append, ← digitValue]
  exact congrArg (10 * digitValue ds + ·) (digitChar_toNat hd)

theorem Numeral.isDigit (h : Numeral ds n) : ∀ c ∈ ds, c.isDigit := by
  induction h with
  | digit hd => simpa [Nat.isDigit_digitChar] using hd
  | snoc _ hd ih =>
    intro c hc
    rcases List.mem_append.mp hc with hc | hc
    · exact ih c hc
    · rw [List.mem_singleton.mp hc, Nat.isDigit_digitChar]
      exact decide_eq_true hd

theorem Numeral.ne_nil (h : Numeral ds n) : ds ≠ [] := by
  cases h <;> simp

theorem Numeral.value (h : Numeral ds n) : digitValue ds = n := by
  induction h with
  | digit hd => exact (digitValue_snoc [] hd).trans (Nat.zero_add _)
  | snoc _ hd ih => rw [digitValue_snoc _ hd, ih]

/-- By induction on the digits, of which the last is read last. -/
theorem numeral_of_isDigit (hne : ds ≠ []) (h : ∀ c ∈ ds, c.isDigit) : Numeral ds (digitValue ds) := by
  induction ds using List.reverseRecOn with
  | nil => exact absurd rfl hne
  | append_singleton ds c ih =>
    obtain ⟨d, hd, rfl⟩ := exists_digitChar (h c (by simp))
    rw [digitValue_snoc ds hd]
    cases ds with
    | nil =>
      have hz : 10 * digitValue [] + d = d := Nat.zero_add d
      rw [hz]
      exact .digit hd
    | cons e rest =>
      exact .snoc (ih (by simp) fun c hc => h c (List.mem_append_left _ hc)) hd

theorem natural?_eq_some_iff : natural? ds = some n ↔ Numeral ds n := by
  rw [natural?, Option.ite_none_right_eq_some, List.all_eq_true]
  constructor
  · rintro ⟨⟨hne, hd⟩, hn⟩
    rw [← Option.some.inj hn]
    exact numeral_of_isDigit hne hd
  · intro h
    exact ⟨⟨h.ne_nil, h.isDigit⟩, congrArg some h.value⟩

/-! ## Signs -/

/-- The characters of integers. -/
def integerChars : List Char := "+-0123456789".toList

theorem mem_integerChars_of_isDigit {c : Char} (h : c.isDigit) : c ∈ integerChars := by
  obtain ⟨d, hd, rfl⟩ := exists_digitChar h
  interval_cases d <;> decide

theorem Signed.mem_integerChars (h : Signed cs i) : ∀ c ∈ cs, c ∈ integerChars := by
  have hdigits {ds : List Char} {n : Nat} (h : Numeral ds n) : ∀ c ∈ ds, c ∈ integerChars :=
    fun c hc => mem_integerChars_of_isDigit (h.isDigit c hc)
  cases h with
  | bare h => exact hdigits h
  | plus h => exact List.forall_mem_cons.mpr ⟨by decide, hdigits h⟩
  | minus h => exact List.forall_mem_cons.mpr ⟨by decide, hdigits h⟩

/-- Digits are read as they are, since neither sign is a digit. -/
theorem integer?_of_numeral (h : Numeral ds n) : integer? ds = some (n : Int) := by
  have hn : (natural? ds).map Int.ofNat = some (n : Int) := by
    rw [natural?_eq_some_iff.mpr h]
    rfl
  unfold integer?
  split
  · exact absurd (h.isDigit '-' List.mem_cons_self) (by decide)
  · exact absurd (h.isDigit '+' List.mem_cons_self) (by decide)
  · exact hn

theorem integer?_minus (ds : List Char) :
    integer? ('-' :: ds) = (natural? ds).map fun n : Nat => -(n : Int) := by
  rw [integer?]
  cases natural? ds <;> rfl

theorem integer?_eq_some_iff : integer? cs = some i ↔ Signed cs i := by
  constructor
  · intro h
    unfold integer? at h
    split at h
    · rename_i ds
      rw [← integer?, integer?_minus] at h
      obtain ⟨n, hn, rfl⟩ := Option.map_eq_some_iff.mp h
      exact .minus (natural?_eq_some_iff.mp hn)
    · obtain ⟨n, hn, rfl⟩ := Option.map_eq_some_iff.mp h
      exact .plus (natural?_eq_some_iff.mp hn)
    · obtain ⟨n, hn, rfl⟩ := Option.map_eq_some_iff.mp h
      exact .bare (natural?_eq_some_iff.mp hn)
  · intro h
    cases h with
    | bare h => exact integer?_of_numeral h
    | plus h => rw [integer?, natural?_eq_some_iff.mpr h]; rfl
    | minus h => rw [integer?, natural?_eq_some_iff.mpr h]; rfl

/-! ## 64 bits -/

/-- **The texts that are read as integers of 64 bits are those which denote them.** -/
theorem int64?_eq_some_iff : int64? cs = some v ↔ Denotes cs v := by
  have hlo : Int64.minValue.toInt = -2 ^ 63 := by decide
  have hhi : Int64.maxValue.toInt = 2 ^ 63 - 1 := by decide
  simp only [int64?, Denotes, ← integer?_eq_some_iff]
  cases integer? cs with
  | none => simp
  | some m =>
    dsimp only
    rw [Option.ite_none_right_eq_some, hlo, hhi]
    constructor
    · rintro ⟨⟨h₁, h₂⟩, hv⟩
      exact ⟨m, rfl, h₁, h₂, (Option.some.inj hv).symm⟩
    · rintro ⟨n, hn, h₁, h₂, rfl⟩
      rw [Option.some.inj hn]
      exact ⟨⟨h₁, h₂⟩, rfl⟩

theorem Denotes.mem_integerChars (h : Denotes cs v) : ∀ c ∈ cs, c ∈ integerChars := by
  obtain ⟨n, hn, -⟩ := h
  exact hn.mem_integerChars

theorem Denotes.notMem (h : Denotes cs v) {c : Char} (hc : c ∉ integerChars) : c ∉ cs :=
  fun hm => hc (h.mem_integerChars c hm)

theorem Denotes.bare (h : Denotes cs v) : Bare cs := by
  have hno : integerChars.all (!isBlank ·) := by decide
  refine bare_of_all (List.all_eq_true.mpr fun c hc => ?_)
  exact List.all_eq_true.mp hno c (h.mem_integerChars c hc)

/-! ## How integers are written -/

theorem numeral_toDigits (n : Nat) : Numeral (Nat.toDigits 10 n) n := by
  have hv : digitValue (Nat.toDigits 10 n) = n := Nat.ofDigitChars_toDigits (by decide) (by decide)
  have h := numeral_of_isDigit (Nat.toDigits_ne_nil (b := 10) (n := n))
    fun c hc => Nat.isDigit_of_mem_toDigits (by decide) (by decide) hc
  rwa [hv] at h

theorem signed_toString (i : Int) : Signed (toString i).toList i := by
  rw [Int.toString_eq_repr]
  cases i with
  | ofNat n =>
    rw [Int.repr, Nat.toList_repr]
    exact .bare (numeral_toDigits n)
  | negSucc n =>
    have h : ("-" ++ (n + 1).repr).toList = '-' :: Nat.toDigits 10 (n + 1) := by
      rw [String.toList_append, Nat.toList_repr]
      rfl
    rw [Int.repr, h, Int.negSucc_eq]
    exact .minus (numeral_toDigits (n + 1))

/-- **An integer as it is written denotes itself.** -/
theorem denotes_toString (v : Int64) : Denotes (toString v.toInt).toList v := by
  have hlo : Int64.minValue.toInt = -2 ^ 63 := by decide
  have hhi : Int64.maxValue.toInt = 2 ^ 63 - 1 := by decide
  exact ⟨v.toInt, signed_toString _, hlo ▸ v.minValue_le_toInt, hhi ▸ v.toInt_le,
    (Int64.ofInt_toInt v).symm⟩

end SatClient.Text
