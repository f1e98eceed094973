import ProtoScript.Decimal.Basic

/-!
# Decimal arithmetic

Sums, differences and products are computed at a working precision that is chosen from the operands and has
room for every digit of the result. A quotient has the exponent of its dividend and is rounded to the nearest
such decimal, a tie going to the even neighbour.

Arithmetic has limits. It refuses to work with too many digits and to give a number that is too large. A
number that is too small is rounded at the smallest power of ten there is.
-/

namespace ProtoScript

/-- The quotient of two natural numbers rounded to the nearest one, a tie to the even one. -/
def divideToEven (numerator denominator : Nat) : Nat :=
  let quotient := numerator / denominator
  let twice := 2 * (numerator % denominator)
  if twice > denominator ∨ (twice = denominator ∧ quotient % 2 = 1) then quotient + 1 else quotient

namespace Decimal

/-- Why arithmetic has no result. -/
inductive Limit
  /-- More digits would have to be worked with than can be. -/
  | precision
  /-- The result is too large. -/
  | overflow
  /-- A whole number has more digits than any decimal. -/
  | length
  deriving DecidableEq, Repr

/-- How many digits are kept when decimals are combined. -/
def workingPrecision (first : Decimal) (others : List Decimal) : Nat :=
  let digits := others.foldl (fun count d => count + d.digitCount) first.digitCount
  let highest := others.foldl (fun power d => max power d.adjusted) first.adjusted
  let lowest := others.foldl (fun power d => min power d.exponent) first.exponent
  digits + (highest - lowest).toNat + 2

/-- The working precision, unless it is beyond the limit. -/
def boundedPrecision (first : Decimal) (others : List Decimal) : Except Limit Nat :=
  if workingPrecision first others ≤ maxPrecision then .ok (workingPrecision first others)
  else .error .precision

/-- The coefficient in units of a larger power of ten, rounded to the nearest, a tie to the even one. -/
def unitsOf (d : Decimal) (power : Int) : Nat :=
  let dropped := (power - d.exponent).toNat
  -- The powers of ten can be huge, so a number below a tenth of the unit is not divided.
  if d.digitCount < dropped then 0 else divideToEven d.coefficient (Nat.pow 10 dropped)

/-- The decimal rounded at a larger power of ten, or at the next one if that makes a digit too many. -/
def roundedAt (precision : Nat) (power : Int) (d : Decimal) : Decimal :=
  let units := d.unitsOf power
  if Numeral.digitCount units ≤ precision then { d with coefficient := units, exponent := power }
  else { d with coefficient := units / 10, exponent := power + 1 }

/-- A decimal that is within the limits at the precision: of the same size if there is one, otherwise
rounded. Of a zero only the exponent can be beyond the limits. -/
def fit (precision : Nat) (d : Decimal) : Except Limit Decimal :=
  let power := max (d.adjusted - precision + 1) (smallestPower precision)
  if d.coefficient = 0 then
    .ok { d with exponent := min (max d.exponent (smallestPower precision)) largestPower }
  else if largestPower < d.adjusted then .error .overflow
  else if power ≤ d.exponent then .ok d
  else if largestPower < (d.roundedAt precision power).adjusted then .error .overflow
  else .ok (d.roundedAt precision power)

/-- The sum of two decimals, as it is before rounding. A zero that comes from cancelling is positive. -/
def sum (a b : Decimal) : Decimal :=
  let total := a.scaled (commonScale a b) + b.scaled (commonScale a b)
  { negative := if total = 0 then a.negative && b.negative else total < 0
    coefficient := total.natAbs
    exponent := commonScale a b }

/-- The product of two decimals, as it is before rounding. -/
def product (a b : Decimal) : Decimal :=
  { negative := a.negative != b.negative
    coefficient := a.coefficient * b.coefficient
    exponent := a.exponent + b.exponent }

/-- `a + b` -/
def add (a b : Decimal) : Except Limit Decimal := do
  let precision ← boundedPrecision a [b]
  (sum a b).fit precision

/-- `a - b` -/
def subtract (a b : Decimal) : Except Limit Decimal := do
  let precision ← boundedPrecision a [b]
  (sum a b.negate).fit precision

/-- `a * b` -/
def multiply (a b : Decimal) : Except Limit Decimal := do
  let precision ← boundedPrecision a [b]
  (product a b).fit precision

/-- The decimal with its exponent raised by `power`. -/
def raised (d : Decimal) (power : Int) : Except Limit Decimal := do
  let precision ← boundedPrecision d []
  { d with exponent := d.exponent + power }.fit precision

/-- A whole number as a decimal. Zero is positive. -/
def ofWhole (negative : Bool) (n : Nat) : Except Limit Decimal :=
  if maxPrecision < Numeral.digitCount n then .error .length
  else .ok { negative := n ≠ 0 && negative, coefficient := n, exponent := 0 }

/-- `a / b` for a divisor other than zero, at the exponent of `a`. A quotient of zero is positive. -/
def divide (a b : Decimal) : Except Limit Decimal := do
  let dividend ← a.raised (-a.exponent)
  let divisor ← b.raised (-b.exponent)
  let numerator := dividend.coefficient * Nat.pow 10 (-b.exponent).toNat
  let denominator := divisor.coefficient * Nat.pow 10 b.exponent.toNat
  let quotient ← ofWhole (a.negative != b.negative) (divideToEven numerator denominator)
  quotient.raised a.exponent

end Decimal

end ProtoScript
