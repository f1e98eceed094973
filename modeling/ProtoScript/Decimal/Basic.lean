import ProtoScript.Numeral

/-!
# Decimals

A decimal is a sign, a coefficient and a power of ten. The exponent is part of the value: `1.0` and
`1.00` are different decimals of the same size. Zero keeps its sign and its exponent.

The powers of ten are bounded, above for the first digit of a number and below for its last one; the more
digits are worked with, the smaller the last one may be.
-/

namespace ProtoScript

/-- The number `± coefficient * 10 ^ exponent`. -/
structure Decimal where
  negative : Bool
  coefficient : Nat
  exponent : Int
  deriving DecidableEq, Repr, Inhabited

namespace Decimal

/-- The coefficient with the sign of the number. -/
def signed (d : Decimal) : Int :=
  if d.negative then -(d.coefficient : Int) else d.coefficient

/-- The number as a multiple of `10 ^ scale`, for a scale that is not above the exponent. -/
def scaled (d : Decimal) (scale : Int) : Int :=
  d.signed * Int.pow 10 (d.exponent - scale).toNat

/-- How many digits the coefficient has. -/
def digitCount (d : Decimal) : Nat :=
  Numeral.digitCount d.coefficient

/-- The power of ten of the first digit. -/
def adjusted (d : Decimal) : Int :=
  d.digitCount - 1 + d.exponent

/-- The decimal with the other sign, also for zero. -/
def negate (d : Decimal) : Decimal :=
  { d with negative := !d.negative }

/-- The finer of two exponents. -/
def commonScale (a b : Decimal) : Int :=
  min a.exponent b.exponent

/-- The most digits that can be worked with. -/
def maxPrecision : Nat :=
  999999999999999999

/-- The largest power of ten, for the first digit of a number. -/
def largestPower : Int :=
  999999999999999999

/-- The smallest power of ten, for the last digit of a number, if so many digits are worked with. -/
def smallestPower (precision : Nat) : Int :=
  -largestPower - precision + 1

/-- Whether two decimals are equal in size and in exponent. The sign of zero does not count. -/
def same (a b : Decimal) : Bool :=
  a.exponent = b.exponent && a.signed = b.signed

/-- Whether `a` is less than `b` in size. -/
def less (a b : Decimal) : Bool :=
  a.scaled (commonScale a b) < b.scaled (commonScale a b)

/-- Whether `a` is at most `b` in size. -/
def atMost (a b : Decimal) : Bool :=
  a.scaled (commonScale a b) ≤ b.scaled (commonScale a b)

end Decimal

end ProtoScript
