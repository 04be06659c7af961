/-!
# Concealed text

What a log leaves out. An address is `0x` with the hexadecimal digits that follow, up to the next
`0x`; a log writes `0x*` for it wherever it stands. The reason for a failure comes after the first colon with a space;
a log may leave it out.

* `Text.withoutAddresses`, `Text.concealed`: no address is told
* `Text.beforeReason`, `Text.withoutReason`: no reason is told
-/

namespace SatClient.Text

/-- Whether a character is a hexadecimal digit, in upper or lower case. -/
def isHexadecimal (c : Char) : Bool := c.isDigit || "abcdefABCDEF".toList.contains c

/-- Characters with `0x*` for each address. The flag says whether an address has begun, so that
digits are left out. -/
def withoutAddresses : Bool → List Char → List Char
  | _, [] => []
  | _, '0' :: 'x' :: rest => '0' :: 'x' :: '*' :: withoutAddresses true rest
  | begun, c :: rest =>
    if begun && isHexadecimal c then withoutAddresses true rest
    else c :: withoutAddresses false rest

/-- A text with `0x*` for each address. -/
def concealed (s : String) : String := String.ofList (withoutAddresses false s.toList)

/-- The characters before the first colon with a space after it. -/
def beforeReason : List Char → List Char
  | ':' :: ' ' :: _ => []
  | c :: rest => c :: beforeReason rest
  | [] => []

/-- A text up to the first colon with a space after it. -/
def withoutReason (s : String) : String := String.ofList (beforeReason s.toList)

end SatClient.Text
