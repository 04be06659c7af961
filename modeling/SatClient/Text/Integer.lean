/-!
# Integers in text

An integer is an optional sign and at least one ASCII digit. Its value must fit 64 bits; leading
zeros do not count.

* `Text.digitValue`, `Text.natural?`
* `Text.integer?`, `Text.int64?`
-/

namespace SatClient.Text

/-- The number that a list of digits denotes. -/
def digitValue (ds : List Char) : Nat := ds.foldl (fun n d => 10 * n + (d.toNat - '0'.toNat)) 0

/-- Reads a number without a sign. -/
def natural? (ds : List Char) : Option Nat :=
  if ds ≠ [] ∧ ds.all Char.isDigit then some (digitValue ds) else none

/-- Reads a number with an optional sign. -/
def integer? : List Char → Option Int
  | '-' :: ds => (natural? ds).map fun n => -(n : Int)
  | '+' :: ds => (natural? ds).map Int.ofNat
  | ds => (natural? ds).map Int.ofNat

/-- Reads an integer of 64 bits; one out of range is refused. -/
def int64? (cs : List Char) : Option Int64 :=
  match integer? cs with
  | some n =>
    if Int64.minValue.toInt ≤ n ∧ n ≤ Int64.maxValue.toInt then some (Int64.ofInt n) else none
  | none => none

end SatClient.Text
