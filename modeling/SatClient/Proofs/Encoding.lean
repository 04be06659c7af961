import Mathlib.Data.List.Forall2
import Mathlib.Data.List.TakeWhile
import Mathlib.Tactic.SplitIfs
import SatClient.Text.Lossy

/-!
# Texts as bytes and back

A text is written as UTF-8, one character after the other, and reading the bytes gives the same text. Only
the character zero is written with a zero byte, so a text without it can be held by a native library and
read up to the byte that ends it.

* `Text.toUTF8_toList`: the bytes of a text are those of its characters
* `Text.Encodes`: bytes that are read as one character; `Text.encodes`: those which are written for it
* `Text.lossy_written`: the bytes of characters are read as these characters
* **`Text.ofTerminated_toUTF8`**: a text without a zero comes back
-/

namespace SatClient.Text

/-! ## Arrays of bytes -/

theorem toList_loop (bytes : ByteArray) (i : Nat) (seen : Bytes) (hi : i ≤ bytes.size) :
    ByteArray.toList.loop bytes i seen = seen.reverse ++ bytes.data.toList.drop i := by
  have hlength : bytes.data.toList.length = bytes.size := Array.length_toList
  induction hn : bytes.size - i generalizing i seen with
  | zero =>
    rw [ByteArray.toList.loop, if_neg (by omega), List.drop_eq_nil_of_le (by omega), List.append_nil]
  | succ n ih =>
    have hlt : i < bytes.data.toList.length := by omega
    have hget : bytes.get! i = bytes.data.toList[i] := getElem!_pos bytes.data i hlt
    rw [ByteArray.toList.loop, if_pos (by omega), ih (i + 1) _ (by omega) (by omega),
      List.drop_eq_getElem_cons hlt, hget, List.reverse_cons, List.append_assoc]
    rfl

theorem toUTF8_toList (s : String) : s.toUTF8.toList = s.toList.flatMap String.utf8EncodeChar := by
  refine (toList_loop _ 0 [] (Nat.zero_le _)).trans ?_
  rw [String.toUTF8_eq_toByteArray, ← String.utf8Encode_toList, List.utf8Encode,
    List.toList_data_toByteArray]
  rfl

/-! ## One character -/

/-- A byte lies in a range of bytes. -/
def Within (range : UInt8 × UInt8) (b : UInt8) : Prop := range.1 ≤ b ∧ b ≤ range.2

/-- The bytes are read as a character, whatever comes after them. -/
def Encodes (bytes : Bytes) (c : Char) : Prop :=
  ∃ lead tail ranges, bytes = lead :: tail ∧ continuations lead = some ranges ∧
    List.Forall₂ Within ranges tail ∧ complete lead tail = c

theorem continued_append {ranges : List (UInt8 × UInt8)} {tail : Bytes}
    (h : List.Forall₂ Within ranges tail) (rest : Bytes) : continued ranges (tail ++ rest) = tail := by
  induction h with
  | nil => cases rest <;> rfl
  | @cons range b ranges tail hb _ ih =>
    obtain ⟨lo, hi⟩ := range
    rw [List.cons_append, continued, if_pos (show lo ≤ b ∧ b ≤ hi from hb), ih]

theorem Encodes.lossy_append {bytes : Bytes} {c : Char} (h : Encodes bytes c) (rest : Bytes) :
    lossy (bytes ++ rest) = c :: lossy rest := by
  obtain ⟨lead, tail, ranges, rfl, hlead, htail, rfl⟩ := h
  rw [List.cons_append, lossy, hlead]
  dsimp only
  rw [continued_append htail, if_pos htail.length_eq.symm, List.drop_left]

theorem toNat_ofNat {n : Nat} (h : n < 256) : (UInt8.ofNat n).toNat = n := by
  rw [UInt8.toNat_ofNat', Nat.mod_eq_of_lt h]

theorem within_ofNat {n : Nat} {range : UInt8 × UInt8} (hlo : range.1.toNat ≤ n)
    (hhi : n ≤ range.2.toNat) : Within range (UInt8.ofNat n) := by
  have hn : n < 256 := Nat.lt_of_le_of_lt hhi range.2.toNat_lt
  unfold Within
  rw [UInt8.le_iff_toNat_le, UInt8.le_iff_toNat_le, toNat_ofNat hn]
  exact ⟨hlo, hhi⟩

theorem within_tail (n : Nat) : Within (0x80, 0xBF) (UInt8.ofNat (n % 64 + 128)) :=
  within_ofNat (show 0x80 ≤ _ by omega) (show _ ≤ 0xBF by omega)

/-- What may come after a leading byte, by its number. -/
theorem continuations_ofNat {n : Nat} (h : n < 256) : continuations (UInt8.ofNat n) =
    if n < 0x80 then some []
    else if n < 0xC2 then none
    else if n < 0xE0 then some [(0x80, 0xBF)]
    else if n = 0xE0 then some [(0xA0, 0xBF), (0x80, 0xBF)]
    else if n = 0xED then some [(0x80, 0x9F), (0x80, 0xBF)]
    else if n < 0xF0 then some [(0x80, 0xBF), (0x80, 0xBF)]
    else if n = 0xF0 then some [(0x90, 0xBF), (0x80, 0xBF), (0x80, 0xBF)]
    else if n < 0xF4 then some [(0x80, 0xBF), (0x80, 0xBF), (0x80, 0xBF)]
    else if n = 0xF4 then some [(0x80, 0x8F), (0x80, 0xBF), (0x80, 0xBF)]
    else none := by
  unfold continuations
  simp only [UInt8.lt_iff_toNat_lt, ← UInt8.toNat_inj, toNat_ofNat h]
  rfl

section Written

variable {c : Char}

theorem toNat_valid (c : Char) : c.toNat < 0xD800 ∨ 0xDFFF < c.toNat ∧ c.toNat < 0x110000 := c.valid

theorem ofNat_of_eq {n : Nat} (h : n = c.toNat) : Char.ofNat n = c := h ▸ Char.ofNat_toNat c

theorem encodes_one (h : c.toNat ≤ 127) : Encodes [UInt8.ofNat c.toNat] c := by
  refine ⟨_, _, [], rfl, ?_, .nil, ?_⟩
  · rw [continuations_ofNat (by omega), if_pos (by omega)]
  · show Char.ofNat (UInt8.ofNat c.toNat).toNat = c
    rw [toNat_ofNat (by omega), Char.ofNat_toNat]

theorem encodes_two (h : 127 < c.toNat) (h' : c.toNat ≤ 2047) :
    Encodes [UInt8.ofNat (c.toNat / 64 % 32 + 192), UInt8.ofNat (c.toNat % 64 + 128)] c := by
  refine ⟨_, _, [(0x80, 0xBF)], rfl, ?_, .cons (within_tail _) .nil, ?_⟩
  · rw [continuations_ofNat (by omega), if_neg (by omega), if_neg (by omega), if_pos (by omega)]
  · show Char.ofNat (0x40 * ((UInt8.ofNat _).toNat % 0x20) + (UInt8.ofNat _).toNat % 0x40) = c
    rw [toNat_ofNat (by omega), toNat_ofNat (by omega)]
    exact ofNat_of_eq (by omega)

/-- After two of the leading bytes the next one lies in a smaller range: a character is written with as few
bytes as there can be, and surrogates are no characters. -/
theorem encodes_three (h : 2047 < c.toNat) (h' : c.toNat ≤ 65535) :
    Encodes [UInt8.ofNat (c.toNat / 4096 % 16 + 224), UInt8.ofNat (c.toNat / 64 % 64 + 128),
      UInt8.ofNat (c.toNat % 64 + 128)] c := by
  have hvalid := toNat_valid c
  have hcomplete : complete (UInt8.ofNat (c.toNat / 4096 % 16 + 224))
      [UInt8.ofNat (c.toNat / 64 % 64 + 128), UInt8.ofNat (c.toNat % 64 + 128)] = c := by
    show Char.ofNat (0x40 * (0x40 * ((UInt8.ofNat _).toNat % 0x10) + (UInt8.ofNat _).toNat % 0x40) +
      (UInt8.ofNat _).toNat % 0x40) = c
    rw [toNat_ofNat (by omega), toNat_ofNat (by omega), toNat_ofNat (by omega)]
    exact ofNat_of_eq (by omega)
  have hlead := continuations_ofNat (show c.toNat / 4096 % 16 + 224 < 256 by omega)
  rw [if_neg (by omega), if_neg (by omega), if_neg (by omega)] at hlead
  split_ifs at hlead
  · exact ⟨_, _, _, rfl, hlead, .cons (within_ofNat (show 0xA0 ≤ _ by omega) (show _ ≤ 0xBF by omega))
      (.cons (within_tail _) .nil), hcomplete⟩
  · exact ⟨_, _, _, rfl, hlead, .cons (within_ofNat (show 0x80 ≤ _ by omega) (show _ ≤ 0x9F by omega))
      (.cons (within_tail _) .nil), hcomplete⟩
  · exact ⟨_, _, _, rfl, hlead, .cons (within_tail _) (.cons (within_tail _) .nil), hcomplete⟩
  all_goals omega

theorem encodes_four (h : 65535 < c.toNat) :
    Encodes [UInt8.ofNat (c.toNat / 262144 % 8 + 240), UInt8.ofNat (c.toNat / 4096 % 64 + 128),
      UInt8.ofNat (c.toNat / 64 % 64 + 128), UInt8.ofNat (c.toNat % 64 + 128)] c := by
  have hvalid := toNat_valid c
  have hcomplete : complete (UInt8.ofNat (c.toNat / 262144 % 8 + 240))
      [UInt8.ofNat (c.toNat / 4096 % 64 + 128), UInt8.ofNat (c.toNat / 64 % 64 + 128),
        UInt8.ofNat (c.toNat % 64 + 128)] = c := by
    show Char.ofNat (0x40 * (0x40 * (0x40 * ((UInt8.ofNat _).toNat % 0x08) +
      (UInt8.ofNat _).toNat % 0x40) + (UInt8.ofNat _).toNat % 0x40) + (UInt8.ofNat _).toNat % 0x40) = c
    rw [toNat_ofNat (by omega), toNat_ofNat (by omega), toNat_ofNat (by omega), toNat_ofNat (by omega)]
    exact ofNat_of_eq (by omega)
  have hlead := continuations_ofNat (show c.toNat / 262144 % 8 + 240 < 256 by omega)
  rw [if_neg (by omega), if_neg (by omega), if_neg (by omega), if_neg (by omega), if_neg (by omega),
    if_neg (by omega)] at hlead
  have hrest : List.Forall₂ Within [(0x80, 0xBF), (0x80, 0xBF)]
      [UInt8.ofNat (c.toNat / 64 % 64 + 128), UInt8.ofNat (c.toNat % 64 + 128)] :=
    .cons (within_tail _) (.cons (within_tail _) .nil)
  split_ifs at hlead
  · exact ⟨_, _, _, rfl, hlead, .cons (within_ofNat (show 0x90 ≤ _ by omega) (show _ ≤ 0xBF by omega))
      hrest, hcomplete⟩
  · exact ⟨_, _, _, rfl, hlead, .cons (within_tail _) hrest, hcomplete⟩
  · exact ⟨_, _, _, rfl, hlead, .cons (within_ofNat (show 0x80 ≤ _ by omega) (show _ ≤ 0x8F by omega))
      hrest, hcomplete⟩
  · omega

/-- The bytes that are written for a character are read as this character. -/
theorem encodes (c : Char) : Encodes (String.utf8EncodeChar c) c := by
  rw [String.utf8EncodeChar.eq_1]
  split_ifs with h₁ h₂ h₃
  · exact encodes_one h₁
  · exact encodes_two (Nat.lt_of_not_le h₁) h₂
  · exact encodes_three (Nat.lt_of_not_le h₂) h₃
  · exact encodes_four (Nat.lt_of_not_le h₃)

/-- Only the character zero is written with a zero byte. -/
theorem zero_mem_utf8EncodeChar : 0 ∈ String.utf8EncodeChar c ↔ c = '\x00' := by
  have hzero : c = '\x00' ↔ c.toNat = 0 := by
    rw [← Char.toNat_inj]
    rfl
  have hbyte {n : Nat} (h : n < 256) : 0 = UInt8.ofNat n ↔ n = 0 := by
    rw [← UInt8.toNat_inj, toNat_ofNat h]
    exact eq_comm
  have hvalid := toNat_valid c
  have hval : c.val.toNat = c.toNat := rfl
  rw [String.utf8EncodeChar.eq_1, hzero, hval]
  split_ifs with h₁ h₂ h₃
  · rw [List.mem_singleton, hbyte (by omega)]
  all_goals
    simp only [List.mem_cons, List.not_mem_nil, or_false]
    repeat rw [hbyte (by omega)]
    omega

end Written

/-! ## Texts -/

/-- By induction on the characters. -/
theorem lossy_written (cs : List Char) : lossy (cs.flatMap String.utf8EncodeChar) = cs := by
  induction cs with
  | nil => rw [List.flatMap_nil, lossy]
  | cons c cs ih => rw [List.flatMap_cons, (encodes c).lossy_append, ih]

theorem zero_mem_toUTF8 (s : String) : 0 ∈ s.toUTF8.toList ↔ '\x00' ∈ s.toList := by
  rw [toUTF8_toList, List.mem_flatMap]
  simp only [zero_mem_utf8EncodeChar]
  exact ⟨fun ⟨c, hc, he⟩ => he ▸ hc, fun h => ⟨_, h, rfl⟩⟩

/-- **A text without a zero comes back from its bytes.** -/
theorem ofTerminated_toUTF8 {s : String} (h : '\x00' ∉ s.toList) : ofTerminated s.toUTF8.toList = s := by
  have hbytes : ∀ b ∈ s.toUTF8.toList, decide (b ≠ 0) = true := fun b hb => decide_eq_true fun h0 =>
    h ((zero_mem_toUTF8 s).mp (h0 ▸ hb))
  rw [ofTerminated, List.takeWhile_eq_self_iff.mpr hbytes, toUTF8_toList, lossy_written,
    String.ofList_toList]

end SatClient.Text
