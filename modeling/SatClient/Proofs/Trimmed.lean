import Mathlib.Data.List.DropRight
import SatClient.Text.Blank

/-!
# What is left when a text is trimmed

A text is blanks, what is left of it, and blanks again; what is left is the only part between blanks
that neither starts nor ends with one.

* `Text.Blanks`, `Text.Bare`: runs of blanks, and texts with no blank at an end
* **`Text.trim_framed`**, **`Text.exists_framed`**: trimming takes the blanks around a text away, and
  nothing else
-/

namespace SatClient.Text

variable {cs core w w' : List Char}

/-- A run of blanks, which may be empty. -/
def Blanks (w : List Char) : Prop := ∀ c ∈ w, isBlank c

/-- A text which neither starts nor ends with a blank. -/
structure Bare (cs : List Char) : Prop where
  first : ∀ c ∈ cs.head?, ¬ isBlank c
  last : ∀ c ∈ cs.getLast?, ¬ isBlank c

theorem Blanks.nil : Blanks [] := fun _ h => absurd h List.not_mem_nil

theorem Blanks.notMem (hw : Blanks w) {c : Char} (hc : isBlank c = false) : c ∉ w := fun h => by
  rw [hw c h] at hc
  cases hc

/-- A text without any blank. -/
theorem bare_of_all (h : cs.all (!isBlank ·)) : Bare cs := by
  have hno : ∀ c ∈ cs, ¬ isBlank c := by simpa using h
  exact ⟨fun c hc => hno c (List.mem_of_mem_head? hc), fun c hc => hno c (List.mem_of_getLast? hc)⟩

/-! ## One end at a time -/

theorem trimStart_of_first (h : ∀ c ∈ cs.head?, ¬ isBlank c) : trimStart cs = cs := by
  cases cs with
  | nil => rfl
  | cons c rest => exact List.dropWhile_cons_of_neg (h c rfl)

theorem trimEnd_of_last (h : ∀ c ∈ cs.getLast?, ¬ isBlank c) : trimEnd cs = cs :=
  List.rdropWhile_eq_self_iff.mpr fun hl => h _ (List.getLast?_eq_some_getLast hl)

theorem trimStart_append (hw : Blanks w) (cs : List Char) : trimStart (w ++ cs) = trimStart cs := by
  have h : w.dropWhile isBlank = [] := List.dropWhile_eq_nil_iff.mpr hw
  simp [trimStart, List.dropWhile_append, h]

theorem trimEnd_append (cs : List Char) (hw : Blanks w) : trimEnd (cs ++ w) = trimEnd cs := by
  have h : w.reverse.dropWhile isBlank = [] :=
    List.dropWhile_eq_nil_iff.mpr fun c hc => hw c (List.mem_reverse.mp hc)
  simp [trimEnd, List.dropWhile_append, h]

theorem exists_trimStart (cs : List Char) : ∃ w, Blanks w ∧ cs = w ++ trimStart cs :=
  ⟨cs.takeWhile isBlank, fun _ hc => List.mem_takeWhile_imp hc, List.takeWhile_append_dropWhile.symm⟩

theorem exists_trimEnd (cs : List Char) : ∃ w, Blanks w ∧ cs = trimEnd cs ++ w := by
  obtain ⟨w, hw, h⟩ := exists_trimStart cs.reverse
  refine ⟨w.reverse, fun c hc => hw c (List.mem_reverse.mp hc), ?_⟩
  have h' := congrArg List.reverse h
  rwa [List.reverse_reverse, List.reverse_append] at h'

/-! ## Both ends -/

/-- Nothing but the blanks around a text is taken away. -/
theorem trim_framed (hw : Blanks w) (hw' : Blanks w') (h : Bare core) :
    trim (w ++ core ++ w') = core := by
  rw [trim, List.append_assoc, trimStart_append hw]
  cases core with
  | nil =>
    obtain ⟨v, -, hv⟩ := exists_trimStart w'
    have hblanks : Blanks (trimStart w') := fun c hc => hw' c (hv ▸ List.mem_append_right _ hc)
    exact trimEnd_append [] hblanks
  | cons c rest =>
    have hstart : trimStart (c :: rest ++ w') = c :: rest ++ w' := trimStart_of_first h.first
    rw [hstart, trimEnd_append _ hw', trimEnd_of_last h.last]

theorem trim_of_bare (h : Bare cs) : trim cs = cs := by
  have ht := trim_framed .nil .nil h
  rwa [List.nil_append, List.append_nil] at ht

/-- Nothing but blanks at the end is to be taken away of a text which does not start with one. -/
theorem bare_trimEnd (h : ∀ c ∈ cs.head?, ¬ isBlank c) : Bare (trimEnd cs) := by
  constructor
  · intro c hc
    obtain ⟨w, -, hs⟩ := exists_trimEnd cs
    refine h c ?_
    rw [hs, List.head?_append, hc]
    rfl
  · intro c hc
    obtain ⟨l, hl⟩ := List.getLast?_eq_some_iff.mp hc
    have hne : trimEnd cs ≠ [] := by simp [hl]
    have hlast : (trimEnd cs).getLast hne = c := by simp [hl]
    rw [← hlast]
    exact List.rdropWhile_last_not isBlank cs hne

theorem bare_trim (cs : List Char) : Bare (trim cs) := by
  refine bare_trimEnd fun c hc => ?_
  have h := List.head?_dropWhile_not isBlank cs
  rw [show (cs.dropWhile isBlank).head? = some c from hc] at h
  simpa using h

/-- All blanks around a text are taken away. -/
theorem exists_framed (cs : List Char) :
    ∃ w w', Blanks w ∧ Blanks w' ∧ cs = w ++ trim cs ++ w' := by
  obtain ⟨w, hw, h⟩ := exists_trimStart cs
  obtain ⟨w', hw', h'⟩ := exists_trimEnd (trimStart cs)
  exact ⟨w, w', hw, hw', by rw [List.append_assoc, trim, ← h', ← h]⟩

/-- The texts that stay as they are. -/
theorem trim_eq_self_iff : trim cs = cs ↔ Bare cs :=
  ⟨fun h => h ▸ bare_trim cs, trim_of_bare⟩

end SatClient.Text
