import ProtoScript.Literal.Basic
import ProtoScript.Text.Blank
import ProtoScript.Text.Digit
import ProtoScript.Token.Basic

/-!
# Numbers in programs

A number without a fraction is an integer, also with an exponent, and then it has to be whole. A
number with a fraction is a decimal that keeps every digit it was written with. Exponents are bounded,
so that a short text cannot name a number of unbounded length.

A token that was not read from a source can spell its number more freely: with blanks around it, with
underscores among its digits, and with digits of any script. In an integer without an exponent an
underscore stands between two digits; elsewhere underscores stand anywhere and are skipped.
-/

namespace ProtoScript.Literal

/-- Whether a number starts with a minus, and what follows its sign. -/
def splitSign : List Char → Bool × List Char
  | '-' :: rest => (true, rest)
  | '+' :: rest => (false, rest)
  | chars => (false, chars)

/-- The number that ASCII digits spell, with its sign. -/
def signedValue (negative : Bool) (digits : List Char) : Int :=
  if negative then -(Numeral.value digits : Int) else Numeral.value digits

/-- The parts of a decimal as it is written. -/
structure Spelling where
  negative : Bool
  whole : List Char
  /-- The digits behind the point. -/
  fraction : List Char
  exponent : Int
  deriving DecidableEq, Repr

/-- The digits behind a point, and what follows them. -/
def splitFraction : List Char → List Char × List Char
  | '.' :: rest => (rest.takeWhile Token.isDigit, rest.dropWhile Token.isDigit)
  | chars => ([], chars)

/-- Reads what follows the last digit of a decimal: nothing, or an exponent mark and an exponent. -/
def readExponent : List Char → Option Int
  | [] => some 0
  | mark :: chars =>
      let (negative, digits) := splitSign chars
      if Token.isExponentMark mark && !digits.isEmpty && digits.all Token.isDigit then
        some (signedValue negative digits)
      else none

/-- Takes a decimal apart. -/
def Spelling.ofText? (text : List Char) : Option Spelling :=
  let (negative, unsigned) := splitSign text
  let whole := unsigned.takeWhile Token.isDigit
  let (fraction, rest) := splitFraction (unsigned.dropWhile Token.isDigit)
  if whole.isEmpty && fraction.isEmpty then none
  else (readExponent rest).map fun exponent => { negative, whole, fraction, exponent }

/-- The decimal with exactly the written digits. -/
def Spelling.decimal (s : Spelling) : Decimal :=
  { negative := s.negative
    coefficient := Numeral.value (s.whole ++ s.fraction)
    exponent := s.exponent - s.fraction.length }

/-- Whether a text, its sign apart, is the name of an infinity or of an undefined number. The latter may
have digits behind it. -/
def namesSpecial (text : List Char) : Bool :=
  match (splitSign text).2.map Char.toLower with
  | 'n' :: 'a' :: 'n' :: payload => payload.all Token.isDigit
  | 's' :: 'n' :: 'a' :: 'n' :: payload => payload.all Token.isDigit
  | word => word = "inf".toList || word = "infinity".toList

/-- The largest exponent a number may have, in either direction. -/
def maxExponent : Nat :=
  100000

/-- Whether a decimal can be held at all. -/
def representable (d : Decimal) : Bool :=
  d.adjusted ≤ Decimal.largestPower && Decimal.smallestPower Decimal.maxPrecision ≤ d.exponent

/-- The integer a decimal is equal to, if it is whole. -/
def wholeValue? (d : Decimal) : Option Int :=
  if 0 ≤ d.exponent then some (d.signed * Int.pow 10 d.exponent.toNat)
  else
    let unit := Nat.pow 10 (-d.exponent).toNat
    if d.coefficient % unit = 0 then some (d.signed / (unit : Int)) else none

/-- Why a text is no number that a program could use. -/
inductive Unusable
  /-- An integer without exponent has too many digits. -/
  | tooManyDigits (count : Nat)
  /-- The text is no integer. -/
  | integer (text : String)
  /-- The text is no decimal. -/
  | decimal
  /-- No decimal can hold the number. -/
  | unrepresentable
  /-- The text names an infinity or an undefined number. -/
  | special
  deriving DecidableEq, Repr

/-- Why a number token has no value. -/
inductive NumberError
  /-- The exponent is out of bounds. -/
  | exponentRange
  /-- An integer is not whole. -/
  | fractional
  | unusable (reason : Unusable)
  deriving DecidableEq, Repr

/-- The blanks that may stand around an integer without exponent. Unlike other blanks the ASCII
separators are not among them. -/
def isMargin (c : Char) : Bool :=
  Text.isBlank c && !(0x1C ≤ c.toNat && c.toNat ≤ 0x1F)

/-- Digits and what may stand between them. -/
def isIntegerPart (c : Char) : Bool :=
  Token.isDigit c || c = '_'

/-- Whether digits end with a digit and every underscore in them stands behind one. -/
def wellSpaced : (behindDigit : Bool) → List Char → Bool
  | behindDigit, [] => behindDigit
  | behindDigit, c :: rest =>
      if c = '_' then behindDigit && wellSpaced false rest else wellSpaced true rest

/-- The value of an integer written without an exponent. -/
def integerValue (text : String) : Except NumberError Literal :=
  let (negative, unsigned) := splitSign ((text.toList.map Text.plainDigit).dropWhile isMargin)
  let written := unsigned.takeWhile isIntegerPart
  let digits := written.filter Token.isDigit
  if !wellSpaced false written then .error (.unusable (.integer text))
  else if Numeral.maxDigits < digits.length then .error (.unusable (.tooManyDigits digits.length))
  else if (unsigned.dropWhile isIntegerPart).all isMargin then .ok (.int (signedValue negative digits))
  else .error (.unusable (.integer text))

/-- The text of a decimal without blanks around it, without underscores, and with ASCII digits. -/
def condensed (text : String) : List Char :=
  ((Text.trim text).toList.filter (· ≠ '_')).map Text.plainDigit

/-- The value of a decimal, or of an integer written with an exponent. -/
def scaledValue (kind : Token.Kind) (d : Decimal) : Except NumberError Literal :=
  if !representable d then .error (.unusable .unrepresentable)
  else if maxExponent < d.exponent.natAbs then .error .exponentRange
  else if kind = .decimal then .ok (.decimal d)
  else
    match wholeValue? d with
    | some n => .ok (.int n)
    | none => .error .fractional

/-- Whether a text has an exponent mark anywhere. -/
def hasExponentMark (text : String) : Bool :=
  text.toList.any Token.isExponentMark

/-- The value of a number token. -/
def ofNumber (token : Token) : Except NumberError Literal :=
  if token.kind = .integer && !hasExponentMark token.literal then integerValue token.literal
  else
    match Spelling.ofText? (condensed token.literal) with
    | some s => scaledValue token.kind s.decimal
    | none =>
        .error (.unusable (if namesSpecial (condensed token.literal) then .special else .decimal))

end ProtoScript.Literal
