/-!
# Decimal numerals

Digits of natural numbers and integers, in both directions. Writing halves the number of digits at
each step, so that numbers of many thousand digits are written fast.
-/

namespace ProtoScript.Numeral

/-- The last `2 ^ level` decimal digits of `n`, in front of `tail`. -/
def digitBlock : (level : Nat) → (n : Nat) → (tail : List Char) → List Char
  | 0, n, tail => Nat.digitChar (n % 10) :: tail
  | level + 1, n, tail =>
      let half := 10 ^ 2 ^ level
      digitBlock level (n / half) (digitBlock level (n % half) tail)

/-- A level at which a block holds all digits of `n`: a decimal digit takes more than three bits. -/
def blockLevel (n : Nat) : Nat :=
  (n.log2 / 3 + 1).log2 + 1

/-- The digits without zeros in front; zero keeps one. -/
def dropLeadingZeros (digits : List Char) : List Char :=
  match digits.dropWhile (· = '0') with
  | [] => ['0']
  | significant => significant

/-- The decimal digits of `n`, most significant first, with no superfluous zero. -/
def digits (n : Nat) : List Char :=
  dropLeadingZeros (digitBlock (blockLevel n) n [])

/-- How many decimal digits `n` has; zero has one. -/
def digitCount (n : Nat) : Nat :=
  (digits n).length

/-- The decimal text of a natural number. -/
def ofNat (n : Nat) : String :=
  String.ofList (digits n)

/-- The decimal text of an integer, with a minus sign if it is negative. -/
def ofInt (n : Int) : String :=
  if n < 0 then "-" ++ ofNat n.natAbs else ofNat n.natAbs

/-- The number that a digit string spells. -/
def value (digits : List Char) : Nat :=
  digits.foldl (fun n c => 10 * n + (c.toNat - '0'.toNat)) 0

/-- The most digits an integer may have when it is turned into text, or read from text. -/
def maxDigits : Nat :=
  4300

/-- Whether an integer is short enough to be turned into text. -/
def writable (n : Int) : Bool :=
  n.natAbs < Nat.pow 10 maxDigits

end ProtoScript.Numeral
