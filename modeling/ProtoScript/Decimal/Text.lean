import ProtoScript.Decimal.Basic

/-!
# Decimals as text

Two forms: the plain one writes every digit down to the exponent, the scientific one keeps very small
and scaled-up numbers short.
-/

namespace ProtoScript.Decimal

/-- The sign in front of a number. -/
def signText (d : Decimal) : List Char :=
  if d.negative then ['-'] else []

/-- Digits with a point in front of the last `places`, and zeros in front where digits are missing. -/
def withPoint (digits : List Char) (places : Nat) : List Char :=
  if places = 0 then digits
  else
    let padded := List.replicate (places + 1 - digits.length) '0' ++ digits
    let whole := padded.length - places
    padded.take whole ++ '.' :: padded.drop whole

/-- The digits of a number in plain notation, without its sign. A positive exponent is written as
zeros, except behind a zero. -/
def plainDigits (d : Decimal) : List Char :=
  let digits := Numeral.digits d.coefficient
  if 0 < d.exponent then
    if d.coefficient = 0 then digits else digits ++ List.replicate d.exponent.toNat '0'
  else
    withPoint digits (-d.exponent).toNat

/-- A number in plain notation. -/
def plain (d : Decimal) : String :=
  String.ofList (d.signText ++ d.plainDigits)

/-- A power of ten with its sign always written. -/
def exponentText (exponent : Int) : List Char :=
  'E' :: (if exponent < 0 then '-' else '+') :: Numeral.digits exponent.natAbs

/-- Digits with a point behind the first, if there are more. -/
def firstPoint : List Char → List Char
  | [] => []
  | [digit] => [digit]
  | digit :: rest => digit :: '.' :: rest

/-- A number in scientific notation where that is shorter to read: if its exponent is positive, or
its first digit stands behind the sixth decimal place. -/
def scientific (d : Decimal) : String :=
  if d.exponent ≤ 0 ∧ -6 ≤ d.adjusted then d.plain
  else
    String.ofList
      (d.signText ++ firstPoint (Numeral.digits d.coefficient) ++ exponentText d.adjusted)

end ProtoScript.Decimal
