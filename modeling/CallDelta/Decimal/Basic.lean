/-!
# Decimals

A decimal is a whole number times a power of ten, with a sign of its own, so that a negative zero
can be told from zero. Numbers written in text are decimals first and become doubles by rounding.
-/

namespace CallDelta

/-- The number `mantissa * 10 ^ exponent`, or its negative. -/
structure Decimal where
  negative : Bool
  mantissa : Nat
  exponent : Int
  deriving DecidableEq

namespace Decimal

/-- Beyond this power of ten there is no finite double, and below its inverse none but zero. -/
def exponentBound : Int := 400

/-- The nearest double to the number without its sign. -/
def magnitude (d : Decimal) : Float :=
  let leading := d.exponent + (Nat.toDigits 10 d.mantissa).length
  if d.mantissa = 0 ∨ leading < -exponentBound then 0
  else if exponentBound < leading then 1 / 0
  else if 0 ≤ d.exponent then Float.ofScientific d.mantissa false d.exponent.toNat
  else Float.ofScientific d.mantissa true (-d.exponent).toNat

/-- The nearest double. -/
def toFloat (d : Decimal) : Float := if d.negative then -d.magnitude else d.magnitude

/-- The number that a list of decimal digits denotes. Characters that are no digits count as
zero. -/
def digitsValue (digits : List Char) : Nat :=
  digits.foldl (fun n c => 10 * n + (if c.isDigit then c.toNat - '0'.toNat else 0)) 0

end Decimal

end CallDelta
