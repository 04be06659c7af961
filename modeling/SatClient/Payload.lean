/-!
# Panics

A panic leaves the operation that raised it with a payload. The payload is all that the one who
catches it can see.

* `Payload`: a fixed text, a composed text, an integer, or something opaque to the reader
* `Overflow`: the arithmetic that has no result in 32 bits, with its payload
-/

namespace SatClient

/-- What a panic carries. -/
inductive Payload where
  /-- A text known in advance. -/
  | fixed (text : String)
  /-- A text made up when the panic was raised. -/
  | composed (text : String)
  | integer (value : Int64)
  /-- A value which tells its reader nothing. -/
  | blank
  deriving DecidableEq, Repr

/-- An operation on 32-bit integers whose result does not fit. -/
inductive Overflow where
  | negation
  deriving DecidableEq, Repr

def Overflow.payload : Overflow → Payload
  | .negation => .fixed "attempt to negate with overflow"

end SatClient
