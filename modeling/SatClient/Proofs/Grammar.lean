import SatClient.Proofs.Numeral
import SatClient.Setting

/-!
# The grammar of settings

A setting is a name, an equals sign and a value; after the name an index may stand between brackets.
Blanks may stand around each of these parts. Each text has one derivation at most.

* `Setting.ValueText`, `Setting.IndexText`, `Setting.IsName`: the parts of a setting
* `Setting.Target`, `Setting.Written`: the left side, and the whole
* `Setting.Sides`: a text at its first equals sign
* `Setting.Flaw`: why a text is no setting; a flaw of the value counts before one of the index, and both
  before a name that is missing
* `Setting.written_or_flaw`: there is no text besides
* **`Setting.read_by_grammar`**: a text is read as the setting that it is, and refused for its flaw
-/

namespace SatClient.Setting

open Text (Blanks Bare Denotes)

variable {cs left right name inside w w' : List Char} {v i : Int64} {c : Char}

/-! ## The grammar -/

/-- A text for a value. -/
inductive ValueText : List Char → Int64 → Prop
  | yes : ValueText "true".toList 1
  | no : ValueText "false".toList 0
  | integer {cs : List Char} {v : Int64} (h : Denotes cs v) : ValueText cs v

/-- What may stand between brackets: an integer, with blanks around it. -/
def IndexText (inside : List Char) (i : Int64) : Prop :=
  ∃ w index w', Blanks w ∧ Blanks w' ∧ inside = w ++ index ++ w' ∧ Denotes index i

structure IsName (name : List Char) : Prop where
  nonempty : name ≠ []
  bare : Bare name
  equals : '=' ∉ name

/-- The left side of a setting: a name alone, which is then not to look like one with an index, or a
name with an index after it. -/
inductive Target : List Char → List Char → Int64 → Prop
  | plain {name : List Char} (hn : IsName name) (hb : ¬ (name.getLast? = some ']' ∧ '[' ∈ name)) :
      Target name name 0
  | indexed {name w inside : List Char} {i : Int64} (hn : IsName name) (hb : '[' ∉ name)
      (hw : Blanks w) (hi : IndexText inside i) :
      Target (name ++ w ++ '[' :: (inside ++ [']'])) name i

/-- How a setting is written. -/
inductive Written : List Char → Setting → Prop
  | mk {w₁ w₂ w₃ w₄ target name text : List Char} {v i : Int64} (h₁ : Blanks w₁) (h₂ : Blanks w₂)
      (h₃ : Blanks w₃) (h₄ : Blanks w₄) (ht : Target target name i) (hv : ValueText text v) :
      Written (w₁ ++ target ++ w₂ ++ '=' :: (w₃ ++ text ++ w₄)) ⟨String.ofList name, v, i⟩

/-- What a text has before its first equals sign and after it, without the blanks around each. -/
inductive Sides (left right : List Char) : List Char → Prop
  | mk {w₁ w₂ w₃ w₄ : List Char} (h₁ : Blanks w₁) (h₂ : Blanks w₂) (h₃ : Blanks w₃) (h₄ : Blanks w₄)
      (hl : Bare left) (hr : Bare right) (he : '=' ∉ left) :
      Sides left right (w₁ ++ left ++ w₂ ++ '=' :: (w₃ ++ right ++ w₄))

/-- Why a text is no setting. -/
inductive Flaw (cs : List Char) : Malformed → Prop
  | noValue (h : '=' ∉ cs) : Flaw cs .noValue
  | value {left right : List Char} (h : Sides left right cs) (hv : ∀ v, ¬ ValueText right v) :
      Flaw cs (.value (String.ofList right))
  /-- The brackets are the first that opens and one at the end; blanks between them are told too. -/
  | index {left right name inside : List Char} {v : Int64} (h : Sides left right cs)
      (hv : ValueText right v) (hl : left = name ++ '[' :: (inside ++ [']'])) (hb : '[' ∉ name)
      (hi : ∀ i, ¬ IndexText inside i) : Flaw cs (.index (String.ofList inside))
  | noName {left right : List Char} {v : Int64} (h : Sides left right cs) (hv : ValueText right v)
      (hl : left = [] ∨ ∃ inside i, left = '[' :: (inside ++ [']']) ∧ IndexText inside i) :
      Flaw cs .noName

/-! ## Splitting -/

theorem splitAtFirst_eq_none_iff : splitAtFirst c cs = none ↔ c ∉ cs := by
  induction cs with
  | nil => simp [splitAtFirst]
  | cons x xs ih =>
    rw [splitAtFirst]
    split_ifs with hx
    · simp [hx]
    · rw [Option.map_eq_none_iff, ih, List.mem_cons, not_or, eq_comm (a := c),
        and_iff_right hx]

theorem splitAtFirst_eq_some_iff :
    splitAtFirst c cs = some (left, right) ↔ cs = left ++ c :: right ∧ c ∉ left := by
  induction cs generalizing left with
  | nil => simp [splitAtFirst]
  | cons x xs ih =>
    rw [splitAtFirst]
    split_ifs with hx
    · cases left with
      | nil => simp [hx]
      | cons y ys => simp +contextual [hx]
    · cases left with
      | nil => simp [hx]
      | cons y ys =>
        simp only [Option.map_eq_some_iff, Prod.exists, Prod.mk.injEq, List.cons.injEq, List.cons_append,
          List.mem_cons, not_or]
        constructor
        · rintro ⟨a, b, hs, ⟨rfl, rfl⟩, rfl⟩
          obtain ⟨rfl, hm⟩ := ih.mp hs
          exact ⟨⟨rfl, rfl⟩, fun h => hx h.symm, hm⟩
        · rintro ⟨⟨rfl, rfl⟩, -, hm⟩
          exact ⟨ys, right, ih.mpr ⟨rfl, hm⟩, ⟨rfl, rfl⟩, rfl⟩

theorem splitIndex_snoc (cs : List Char) (c : Char) :
    splitIndex (cs ++ [c]) = if c = ']' then splitAtFirst '[' cs else none := by
  rw [splitIndex, List.reverse_append]
  split_ifs with h
  · subst h
    exact congrArg (splitAtFirst '[') (List.reverse_reverse cs)
  · split
    · rename_i heq
      exact absurd (List.cons.inj heq).1 h
    · rfl

/-- A text ends with an index if its last character is a bracket that closes, and one is opened
before. -/
theorem splitIndex_eq_some_iff :
    splitIndex cs = some (name, inside) ↔ cs = name ++ '[' :: (inside ++ [']']) ∧ '[' ∉ name := by
  have hsplit (l : List Char) (c : Char) :
      l ++ [c] = name ++ '[' :: (inside ++ [']']) ↔ c = ']' ∧ l = name ++ '[' :: inside := by
    rw [← List.cons_append, ← List.append_assoc]
    constructor
    · intro h
      obtain ⟨hl, hc⟩ := List.append_inj' h rfl
      exact ⟨List.singleton_inj.mp hc, hl⟩
    · rintro ⟨rfl, rfl⟩
      rfl
  induction cs using List.reverseRecOn with
  | nil => simp [splitIndex]
  | append_singleton l c _ =>
    rw [splitIndex_snoc, Option.ite_none_right_eq_some, splitAtFirst_eq_some_iff, hsplit, and_assoc]

theorem splitIndex_eq_none_iff :
    splitIndex cs = none ↔ ¬ (cs.getLast? = some ']' ∧ '[' ∈ cs) := by
  induction cs using List.reverseRecOn with
  | nil => simp [splitIndex]
  | append_singleton l c _ =>
    rw [splitIndex_snoc, ite_eq_right_iff, splitAtFirst_eq_none_iff, List.getLast?_concat, not_and,
      Option.some.injEq, List.mem_append, not_or]
    refine forall_congr' fun hc => (and_iff_left ?_).symm
    simp [hc]

/-! ## Values and indices -/

theorem ValueText.bare (h : ValueText cs v) : Bare cs := by
  cases h with
  | yes => exact Text.bare_of_all (by decide)
  | no => exact Text.bare_of_all (by decide)
  | integer h => exact h.bare

/-- The two words are no integers, so that it does not matter which is tried first. -/
theorem value?_eq_some_iff : value? cs = some v ↔ ValueText cs v := by
  constructor
  · intro h
    rw [value?] at h
    split_ifs at h with h₁ h₂
    · cases h
      exact h₁ ▸ .yes
    · cases h
      exact h₂ ▸ .no
    · exact .integer (Text.int64?_eq_some_iff.mp h)
  · intro h
    cases h with
    | yes => rfl
    | no => rfl
    | integer h =>
      have h₁ : cs ≠ "true".toList := by
        rintro rfl
        exact h.notMem (c := 't') (by decide) (by decide)
      have h₂ : cs ≠ "false".toList := by
        rintro rfl
        exact h.notMem (c := 'f') (by decide) (by decide)
      rw [value?, if_neg h₁, if_neg h₂]
      exact Text.int64?_eq_some_iff.mpr h

theorem value?_eq_none_iff : value? cs = none ↔ ∀ v, ¬ ValueText cs v := by
  simp only [Option.eq_none_iff_forall_ne_some, ne_eq, value?_eq_some_iff]

theorem indexText_iff : IndexText inside i ↔ Text.int64? (Text.trim inside) = some i := by
  rw [Text.int64?_eq_some_iff]
  constructor
  · rintro ⟨w, index, w', hw, hw', rfl, h⟩
    rwa [Text.trim_framed hw hw' h.bare]
  · intro h
    obtain ⟨w, w', hw, hw', he⟩ := Text.exists_framed inside
    exact ⟨w, _, w', hw, hw', he, h⟩

theorem int64?_trim_eq_none_iff :
    Text.int64? (Text.trim inside) = none ↔ ∀ i, ¬ IndexText inside i := by
  simp only [Option.eq_none_iff_forall_ne_some, ne_eq, indexText_iff]

theorem IndexText.equals (h : IndexText inside i) : '=' ∉ inside := by
  obtain ⟨w, index, w', hw, hw', rfl, h⟩ := h
  simp only [List.mem_append, not_or]
  exact ⟨⟨hw.notMem rfl, h.notMem (by decide)⟩, hw'.notMem rfl⟩

/-! ## The left side -/

/-- Whatever stands before brackets that end a text, the text ends with no blank. -/
theorem bare_bracketed (hne : name ≠ []) (hfirst : ∀ c ∈ name.head?, ¬ Text.isBlank c)
    (cs : List Char) : Bare (name ++ cs ++ [']']) := by
  constructor
  · intro c hc
    rw [List.append_assoc, List.head?_append_of_ne_nil _ hne] at hc
    exact hfirst c hc
  · intro c hc
    rw [List.getLast?_concat] at hc
    cases hc
    decide

theorem Target.bare (h : Target left name i) : Bare left := by
  cases h with
  | plain hn hb => exact hn.bare
  | @indexed name w inside i hn hb hw hi =>
    have hb := bare_bracketed hn.nonempty hn.bare.first (w ++ '[' :: inside)
    simpa only [List.append_assoc, List.cons_append] using hb

theorem Target.equals (h : Target left name i) : '=' ∉ left := by
  cases h with
  | plain hn hb => exact hn.equals
  | indexed hn hb hw hi => simp [hn.equals, hw.notMem (c := '=') rfl, hi.equals]

theorem Target.isName (h : Target left name i) : IsName name := by
  cases h with
  | plain hn hb => exact hn
  | indexed hn hb hw hi => exact hn

theorem readTarget_of_target (h : Target left name i) : readTarget left = .ok (name, i) := by
  cases h with
  | plain hn hb => rw [readTarget, splitIndex_eq_none_iff.mpr hb]
  | @indexed name w inside i hn hb hw hi =>
    have hb : '[' ∉ name ++ w := fun h => (List.mem_append.mp h).elim hb (hw.notMem rfl)
    have hname : Text.trimEnd (name ++ w) = name := by
      rw [Text.trimEnd_append name hw, Text.trimEnd_of_last hn.bare.last]
    rw [readTarget, splitIndex_eq_some_iff.mpr ⟨rfl, hb⟩]
    dsimp only
    rw [indexText_iff.mp hi, hname]

theorem target_of_readTarget (hl : Bare left) (he : '=' ∉ left) (hne : name ≠ [])
    (h : readTarget left = .ok (name, i)) : Target left name i := by
  rw [readTarget] at h
  cases hs : splitIndex left with
  | none =>
    rw [hs] at h
    cases h
    exact .plain ⟨hne, hl, he⟩ (splitIndex_eq_none_iff.mp hs)
  | some p =>
    obtain ⟨before, inside⟩ := p
    obtain ⟨rfl, hb⟩ := splitIndex_eq_some_iff.mp hs
    rw [hs] at h
    dsimp only at h
    cases hi : Text.int64? (Text.trim inside) with
    | none =>
      rw [hi] at h
      cases h
    | some j =>
      rw [hi] at h
      cases h
      obtain ⟨w, hw, hbefore⟩ := Text.exists_trimEnd before
      have hfirst : ∀ c ∈ before.head?, ¬ Text.isBlank c := fun c hc => hl.first c (by
        rw [List.head?_append, hc]
        rfl)
      have hmem {c : Char} (hc : c ∈ Text.trimEnd before) : c ∈ before :=
        hbefore ▸ List.mem_append_left _ hc
      have hname : IsName (Text.trimEnd before) :=
        ⟨hne, Text.bare_trimEnd hfirst, fun hm => he (List.mem_append_left _ (hmem hm))⟩
      have ht := Target.indexed hname (fun hm => hb (hmem hm)) hw (indexText_iff.mpr hi)
      rwa [← hbefore] at ht

/-- The only flaw that the left side tells of is that of an index. -/
theorem readTarget_eq_error_iff {e : Malformed} :
    readTarget left = .error e ↔ ∃ name inside, left = name ++ '[' :: (inside ++ [']']) ∧ '[' ∉ name ∧
      (∀ i, ¬ IndexText inside i) ∧ e = .index (String.ofList inside) := by
  simp only [← int64?_trim_eq_none_iff, ← and_assoc, ← splitIndex_eq_some_iff]
  constructor
  · intro h
    rw [readTarget] at h
    split at h
    · cases h
    · rename_i name inside hs
      split at h
      · cases h
      · rename_i hi
        cases h
        exact ⟨name, inside, ⟨hs, hi⟩, rfl⟩
  · rintro ⟨name, inside, ⟨hs, hi⟩, rfl⟩
    rw [readTarget, hs]
    dsimp only
    rw [hi]

/-- The left sides without a name are the one without anything, and those that start with the brackets:
a name does not start with a blank. -/
theorem readTarget_noName_iff (hl : Bare left) :
    (∃ i, readTarget left = .ok ([], i)) ↔
      left = [] ∨ ∃ inside i, left = '[' :: (inside ++ [']']) ∧ IndexText inside i := by
  constructor
  · rintro ⟨i, h⟩
    rw [readTarget] at h
    split at h
    · cases h
      exact .inl rfl
    · rename_i before inside hs
      obtain ⟨rfl, -⟩ := splitIndex_eq_some_iff.mp hs
      split at h
      · rename_i j hi
        have hbefore : Text.trimEnd before = [] := (Prod.mk.inj (Except.ok.inj h)).1
        obtain ⟨w, hw, he⟩ := Text.exists_trimEnd before
        rw [hbefore, List.nil_append] at he
        subst he
        cases before with
        | nil => exact .inr ⟨inside, j, rfl, indexText_iff.mpr hi⟩
        | cons c rest => exact absurd (hw c List.mem_cons_self) (hl.first c rfl)
      · cases h
  · rintro (rfl | ⟨inside, i, rfl, hi⟩)
    · exact ⟨0, rfl⟩
    · have hs : splitIndex ('[' :: (inside ++ [']'])) = some ([], inside) :=
        splitIndex_eq_some_iff.mpr ⟨rfl, List.not_mem_nil⟩
      refine ⟨i, ?_⟩
      rw [readTarget, hs]
      dsimp only
      rw [indexText_iff.mp hi]
      rfl

/-! ## The whole -/

/-- A text has sides if it has an equals sign. -/
theorem sides_iff : Sides left right cs ↔
    ∃ l r, splitAtFirst '=' cs = some (l, r) ∧ Text.trim l = left ∧ Text.trim r = right := by
  constructor
  · rintro ⟨h₁, h₂, h₃, h₄, hl, hr, he⟩
    refine ⟨_, _, splitAtFirst_eq_some_iff.mpr ⟨rfl, ?_⟩, Text.trim_framed h₁ h₂ hl,
      Text.trim_framed h₃ h₄ hr⟩
    simp [he, h₁.notMem (c := '=') rfl, h₂.notMem (c := '=') rfl]
  · rintro ⟨l, r, h, rfl, rfl⟩
    obtain ⟨rfl, he⟩ := splitAtFirst_eq_some_iff.mp h
    obtain ⟨w₁, w₂, h₁, h₂, hl⟩ := Text.exists_framed l
    obtain ⟨w₃, w₄, h₃, h₄, hr⟩ := Text.exists_framed r
    have hno : '=' ∉ Text.trim l := fun hm =>
      he (hl ▸ List.mem_append_left _ (List.mem_append_right _ hm))
    have hs := Sides.mk h₁ h₂ h₃ h₄ (Text.bare_trim l) (Text.bare_trim r) hno
    rwa [← hl, ← hr] at hs

theorem exists_sides (h : '=' ∈ cs) : ∃ left right, Sides left right cs := by
  cases hs : splitAtFirst '=' cs with
  | none => exact absurd h (splitAtFirst_eq_none_iff.mp hs)
  | some p => exact ⟨_, _, sides_iff.mpr ⟨p.1, p.2, hs, rfl, rfl⟩⟩

theorem Sides.bare (h : Sides left right cs) : Bare left ∧ '=' ∉ left := by
  cases h with
  | mk _ _ _ _ hl _ he => exact ⟨hl, he⟩

/-- The value is read before the left side. -/
theorem readChars_of_sides (h : Sides left right cs) :
    readChars cs = match value? right with
      | none => .error (.value (String.ofList right))
      | some v => match readTarget left with
        | .error e => .error e
        | .ok (name, i) => if name = [] then .error .noName else .ok ⟨String.ofList name, v, i⟩ := by
  obtain ⟨l, r, hs, rfl, rfl⟩ := sides_iff.mp h
  unfold readChars
  split
  next hn => cases hs.symm.trans hn
  next h' =>
    cases hs.symm.trans h'
    rfl

theorem Written.exists_sides {s : Setting} (h : Written cs s) :
    ∃ left name right, Sides left right cs ∧ Target left name s.index ∧ ValueText right s.value ∧
      s.name = String.ofList name := by
  cases h with
  | mk h₁ h₂ h₃ h₄ ht hv => exact ⟨_, _, _, .mk h₁ h₂ h₃ h₄ ht.bare hv.bare ht.equals, ht, hv, rfl⟩

theorem written_of_sides (hs : Sides left right cs) (ht : Target left name i) (hv : ValueText right v) :
    Written cs ⟨String.ofList name, v, i⟩ := by
  cases hs with
  | mk h₁ h₂ h₃ h₄ => exact .mk h₁ h₂ h₃ h₄ ht hv

theorem readChars_of_written {s : Setting} (h : Written cs s) : readChars cs = .ok s := by
  obtain ⟨left, name, right, hs, ht, hv, hname⟩ := h.exists_sides
  rw [readChars_of_sides hs, value?_eq_some_iff.mpr hv, readTarget_of_target ht]
  dsimp only
  rw [if_neg ht.isName.nonempty, ← hname]

theorem readChars_of_flaw {e : Malformed} (h : Flaw cs e) : readChars cs = .error e := by
  cases h with
  | noValue h => rw [readChars, splitAtFirst_eq_none_iff.mpr h]
  | value h hv => rw [readChars_of_sides h, value?_eq_none_iff.mpr hv]
  | index h hv hl hb hi =>
    rw [readChars_of_sides h, value?_eq_some_iff.mpr hv,
      readTarget_eq_error_iff.mpr ⟨_, _, hl, hb, hi, rfl⟩]
  | noName h hv hl =>
    obtain ⟨i, hi⟩ := (readTarget_noName_iff h.bare.1).mpr hl
    rw [readChars_of_sides h, value?_eq_some_iff.mpr hv, hi]
    rfl

/-- A text that is no setting has a flaw. By the parts in the order in which they are read. -/
theorem written_or_flaw (cs : List Char) : (∃ s, Written cs s) ∨ ∃ e, Flaw cs e := by
  by_cases he : '=' ∈ cs
  swap
  · exact .inr ⟨_, .noValue he⟩
  obtain ⟨left, right, hs⟩ := exists_sides he
  by_cases hv : ∃ v, ValueText right v
  swap
  · exact .inr ⟨_, .value hs (not_exists.mp hv)⟩
  obtain ⟨v, hv⟩ := hv
  cases ht : readTarget left with
  | error e =>
    obtain ⟨name, inside, hl, hb, hi, rfl⟩ := readTarget_eq_error_iff.mp ht
    exact .inr ⟨_, .index hs hv hl hb hi⟩
  | ok target =>
    obtain ⟨name, i⟩ := target
    by_cases hn : name = []
    · subst hn
      exact .inr ⟨_, .noName hs hv ((readTarget_noName_iff hs.bare.1).mp ⟨i, ht⟩)⟩
    · exact .inl ⟨_, written_of_sides hs (target_of_readTarget hs.bare.1 hs.bare.2 hn ht) hv⟩

theorem readChars_eq_ok_iff {s : Setting} : readChars cs = .ok s ↔ Written cs s := by
  refine ⟨fun h => ?_, readChars_of_written⟩
  obtain ⟨s', hs⟩ | ⟨e, he⟩ := written_or_flaw cs
  · rw [readChars_of_written hs] at h
    exact Except.ok.inj h ▸ hs
  · rw [readChars_of_flaw he] at h
    cases h

theorem readChars_eq_error_iff {e : Malformed} : readChars cs = .error e ↔ Flaw cs e := by
  refine ⟨fun h => ?_, readChars_of_flaw⟩
  obtain ⟨s, hs⟩ | ⟨e', he⟩ := written_or_flaw cs
  · rw [readChars_of_written hs] at h
    cases h
  · rw [readChars_of_flaw he] at h
    exact Except.error.inj h ▸ he

/-- **A text is read as the setting that it is, of which there is one at most, and refused for the flaw
that keeps it from being one.** -/
theorem read_by_grammar (t : String) :
    (∀ s, read t = .ok s ↔ Written t.toList s) ∧ (∀ e, read t = .error e ↔ Flaw t.toList e) ∧
      ∀ s s', Written t.toList s → Written t.toList s' → s = s' :=
  ⟨fun _ => readChars_eq_ok_iff, fun _ => readChars_eq_error_iff, fun _ _ h h' =>
    Except.ok.inj ((readChars_of_written h).symm.trans (readChars_of_written h'))⟩

/-- Blanks of two kinds, a sign and a zero in front of the index. -/
theorem written_indexed :
    Written "\t phase[ +012 ]\u3000= true ".toList ⟨"phase", 1, 12⟩ ∧
      ∀ s, Written "\t phase[ +012 ]\u3000= true ".toList s → s = ⟨"phase", 1, 12⟩ := by
  have h := ((read_by_grammar "\t phase[ +012 ]\u3000= true ").1 ⟨"phase", 1, 12⟩).mp (by decide)
  exact ⟨h, fun s hs => (read_by_grammar _).2.2 s _ hs h⟩

/-- The index is told as it stands, the value without the blanks around it; an index is no excuse for a
name that is missing. -/
example : read " x[ y ]=1" = .error (.index " y ") ∧ read "x[y]= z " = .error (.value "z") ∧
    read "[7]=0" = .error .noName := by decide

end SatClient.Setting
