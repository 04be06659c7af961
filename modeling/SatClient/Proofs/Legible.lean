import SatClient.Proofs.Grammar

/-!
# Settings that can be read back

Any text and any numbers make up a setting, but not each setting is read as itself once it is written
out.

* `Setting.Legible`: the settings whose names allow it
* `Setting.Written.legible`: a text stands for no other setting
* `Setting.Legible.written`: written out, such a setting is a text for itself
* **`Setting.read_text`**: the legible settings are those which are read back, and nothing else is read
-/

namespace SatClient.Setting

variable {cs : List Char} {s : Setting}

/-- No blank and no bracket of the name is in the way of those that are written after it. -/
structure Legible (s : Setting) : Prop where
  nonempty : s.name ≠ ""
  trimmed : Text.trim s.name.toList = s.name.toList
  equals : '=' ∉ s.name.toList
  indexed : s.index ≠ 0 → '[' ∉ s.name.toList
  plain : s.index = 0 → ¬ (s.name.toList.getLast? = some ']' ∧ '[' ∈ s.name.toList)

theorem Legible.isName (h : s.Legible) : IsName s.name.toList where
  nonempty := fun hn => h.nonempty (String.toList_eq_nil_iff.mp hn)
  bare := Text.trim_eq_self_iff.mp h.trimmed
  equals := h.equals

/-- An index that is written may be zero; then the name has no bracket that opens all the more. -/
theorem Target.brackets {left name : List Char} {i : Int64} (h : Target left name i) :
    (i ≠ 0 → '[' ∉ name) ∧ (i = 0 → ¬ (name.getLast? = some ']' ∧ '[' ∈ name)) := by
  cases h with
  | plain _ hb => exact ⟨fun hi => absurd rfl hi, fun _ => hb⟩
  | indexed _ hb => exact ⟨fun _ => hb, fun _ h => hb h.2⟩

theorem Written.legible (h : Written cs s) : s.Legible := by
  obtain ⟨left, name, right, -, ht, -, hname⟩ := h.exists_sides
  have hlist : s.name.toList = name := by rw [hname, String.toList_ofList]
  subst hlist
  have hn := ht.isName
  exact ⟨fun he => hn.nonempty (String.toList_eq_nil_iff.mpr he), Text.trim_of_bare hn.bare,
    hn.equals, ht.brackets.1, ht.brackets.2⟩

theorem text_of_plain (hi : s.index = 0) :
    s.text.toList = s.name.toList ++ '=' :: (toString s.value.toInt).toList := by
  simp [text, hi]

theorem text_of_indexed (hi : s.index ≠ 0) :
    s.text.toList = s.name.toList ++ '[' :: ((toString s.index.toInt).toList ++ [']']) ++
      '=' :: (toString s.value.toInt).toList := by
  simp [text, hi]

/-- Written out, a setting has no blank beyond those of its name. -/
theorem Legible.written (h : s.Legible) : Written s.text.toList s := by
  have hv : ValueText _ s.value := .integer (Text.denotes_toString s.value)
  obtain ⟨name, value, index⟩ := s
  by_cases hi : index = 0
  · subst hi
    have hw := Written.mk .nil .nil .nil .nil (.plain h.isName (h.plain rfl)) hv
    simpa [text_of_plain] using hw
  · have hindex : IndexText (toString index.toInt).toList index :=
      ⟨[], _, [], .nil, .nil, by simp, Text.denotes_toString index⟩
    have hw := Written.mk .nil .nil .nil .nil (.indexed h.isName (h.indexed hi) .nil hindex) hv
    simpa [text_of_indexed, hi] using hw

theorem read_text_eq_ok_iff : read s.text = .ok s ↔ s.Legible :=
  ⟨fun h => (readChars_eq_ok_iff.mp h).legible, fun h => readChars_eq_ok_iff.mpr h.written⟩

/-- **The settings that are read back from what is written for them are the legible ones, and whatever
text a setting is read from, it is one of them.** -/
theorem read_text :
    (∀ s : Setting, read s.text = .ok s ↔ s.Legible) ∧
      ∀ (t : String) (s : Setting), read t = .ok s → s.Legible ∧ read s.text = .ok s := by
  refine ⟨fun s => read_text_eq_ok_iff, fun t s h => ?_⟩
  have hs : s.Legible := (readChars_eq_ok_iff.mp h).legible
  exact ⟨hs, read_text_eq_ok_iff.mpr hs⟩

/-- An index below zero, between blanks and with a zero in front. -/
theorem read_text_indexed : ∃ s, read " a[ -01 ] = true" = .ok s ∧ s.Legible ∧ read s.text = .ok s :=
  ⟨⟨"a", 1, -1⟩, by decide, read_text.2 " a[ -01 ] = true" _ (by decide)⟩

/-- What ends like an index is no part of a name unless there is an index after it. -/
example : read (plain "a[1]" 5).text = .ok ⟨"a", 5, 1⟩ ∧ read (plain "a]" 5).text = .ok ⟨"a]", 5, 0⟩ ∧
    read (Setting.mk "a[b" 5 2).text = .error (.index "b[2") := by decide

end SatClient.Setting
