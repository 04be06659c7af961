/-!
# Reading bytes as text

Bytes are read as UTF-8. Each longest piece that begins a character and does not complete one, and
each byte that begins none, is read as U+FFFD. A text held by a native library ends before its
first zero byte.

* `Text.continuations`, `Text.complete`, `Text.lossy`
* `Text.ofTerminated`
-/

namespace SatClient.Text

/-- Bytes as they are held in memory. -/
abbrev Bytes := List UInt8

/-- The ranges in which the bytes after a leading byte must lie; none for a byte which cannot
lead. -/
def continuations (lead : UInt8) : Option (List (UInt8 × UInt8)) :=
  if lead < 0x80 then some []
  else if lead < 0xC2 then none
  else if lead < 0xE0 then some [(0x80, 0xBF)]
  else if lead = 0xE0 then some [(0xA0, 0xBF), (0x80, 0xBF)]
  else if lead = 0xED then some [(0x80, 0x9F), (0x80, 0xBF)]
  else if lead < 0xF0 then some [(0x80, 0xBF), (0x80, 0xBF)]
  else if lead = 0xF0 then some [(0x90, 0xBF), (0x80, 0xBF), (0x80, 0xBF)]
  else if lead < 0xF4 then some [(0x80, 0xBF), (0x80, 0xBF), (0x80, 0xBF)]
  else if lead = 0xF4 then some [(0x80, 0x8F), (0x80, 0xBF), (0x80, 0xBF)]
  else none

/-- The longest front of the bytes which lies in the ranges, one byte for each. -/
def continued : List (UInt8 × UInt8) → Bytes → Bytes
  | (lo, hi) :: ranges, b :: bytes =>
    if lo ≤ b ∧ b ≤ hi then b :: continued ranges bytes else []
  | _, _ => []

/-- The character of a leading byte and all bytes which continue it. -/
def complete (lead : UInt8) (tail : Bytes) : Char :=
  let front := match tail.length with
    | 0 => lead.toNat
    | 1 => lead.toNat % 0x20
    | 2 => lead.toNat % 0x10
    | _ => lead.toNat % 0x08
  Char.ofNat (tail.foldl (fun n b => 0x40 * n + b.toNat % 0x40) front)

/-- Reads bytes as UTF-8, with U+FFFD for what is malformed. -/
def lossy : Bytes → List Char
  | [] => []
  | lead :: rest =>
    match continuations lead with
    | none => '\uFFFD' :: lossy rest
    | some ranges =>
      let tail := continued ranges rest
      let c := if tail.length = ranges.length then complete lead tail else '\uFFFD'
      c :: lossy (rest.drop tail.length)
termination_by bytes => bytes.length
decreasing_by all_goals simp; try omega

/-- Reads the text which starts the given memory and ends before its first zero byte. -/
def ofTerminated (memory : Bytes) : String :=
  String.ofList (lossy (memory.takeWhile (· ≠ 0)))

end SatClient.Text
