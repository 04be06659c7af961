import SatClient.Text.Graphic

/-!
# Quoted text and lists

A quoted text stands between double quotes. Quotes, backslashes and the usual controls are written
with a backslash, other characters that do not show as themselves by their code point.

* `Text.escaped`, `Text.quoted`
* `Text.listed`: items between square brackets
-/

namespace SatClient.Text

def hexadecimal (n : Nat) : String := String.ofList (Nat.toDigits 16 n)

/-- A character as it is written inside quotes. -/
def escaped (c : Char) : String :=
  match c with
  | '\x00' => "\\0"
  | '\t' => "\\t"
  | '\n' => "\\n"
  | '\r' => "\\r"
  | '"' => "\\\""
  | '\\' => "\\\\"
  | c => if isGraphic c then c.toString else "\\u\x7b" ++ hexadecimal c.toNat ++ "\x7d"

/-- A text between quotes. -/
def quoted (s : String) : String := "\"" ++ String.join (s.toList.map escaped) ++ "\""

def listed (items : List String) : String := "[" ++ String.intercalate ", " items ++ "]"

end SatClient.Text
