import LuaCoverage.Json.Value

/-!
# Numbers within double precision

A number that is held in memory is a number of double precision, and this module says which lexemes
are too large for that. A lexeme is taken apart into a significand and a power of ten first. The
significand has 64 bits; digits that do not fit are dropped, and those of them before the point are
made up for in the power. The value is then the product of two numbers that were each rounded to
double precision, hence near the largest number of double precision the answer may differ from what
the digits as written would give.

Everything is computed on natural numbers: for a product to be too large it does not matter how it
would be rounded itself, because that is known from where it lies.
-/

set_option autoImplicit false

namespace LuaCoverage.Json

/-- A number that is not negative, as a significand and a power of ten. -/
structure Scaled where
  significand : Nat
  exponent : Int
  deriving DecidableEq, Repr

namespace Scaled

/-- What a significand has to stay below: it has 64 bits. -/
def significandBound : Nat := Nat.pow 2 64

/-- Appends digits to a significand as long as they fit, and returns the others. -/
def appendDigits : Nat → List Char → Nat × List Char
  | significand, [] => (significand, [])
  | significand, digit :: rest =>
      let longer := significand * 10 + digitsValue [digit]
      if longer < significandBound then appendDigits longer rest else (significand, digit :: rest)

/-- The exponent of ten that the last part of a number writes. -/
def writtenExponent : List Char → Int
  | [] => 0
  | _ :: '-' :: digits => -(Int.ofNat (digitsValue digits))
  | _ :: '+' :: digits => Int.ofNat (digitsValue digits)
  | _ :: digits => Int.ofNat (digitsValue digits)

/-- The size of the number that a lexeme writes. -/
def ofLexeme (lexeme : List Char) : Scaled :=
  let unsigned := lexeme.dropWhile (· == '-')
  let afterInteger := unsigned.dropWhile Char.isDigit
  let pointed := afterInteger.head? == some '.'
  let afterPoint := if pointed then afterInteger.tail else afterInteger
  let fraction := if pointed then afterPoint.takeWhile Char.isDigit else []
  let power := if pointed then afterPoint.dropWhile Char.isDigit else afterPoint
  let (whole, dropped) := appendDigits 0 (unsigned.takeWhile Char.isDigit)
  let (significand, ignored) := appendDigits whole fraction
  { significand := significand
    exponent := Int.ofNat dropped.length - Int.ofNat (fraction.length - ignored.length)
      + writtenExponent power }

/-- How many binary digits a number of double precision has. -/
def doubleDigits : Nat := 53

/-- A number rounded to double precision, where a number in the middle goes to its even
neighbour. -/
def roundToDouble (number : Nat) : Nat :=
  let unit := Nat.pow 2 (number.log2 + 1 - doubleDigits)
  let below := number / unit
  let remainder := number % unit
  let goesUp := unit < 2 * remainder || (unit == 2 * remainder && below % 2 == 1)
  (if goesUp then below + 1 else below) * unit

/-- The largest power of ten that is a number of double precision. -/
def largestPower : Nat := 308

/-- Half a step above the largest number of double precision. -/
def doubleBound : Nat := Nat.pow 2 1024 - Nat.pow 2 970

/-- Whether the product of significand and power is within the range of double precision. -/
def isInRange (number : Scaled) : Bool :=
  number.significand == 0 || number.exponent < 0
    || (number.exponent ≤ Int.ofNat largestPower
      && roundToDouble number.significand * roundToDouble (Nat.pow 10 number.exponent.toNat)
        < doubleBound)

end Scaled

/-- Whether the number that a lexeme writes is within the range of double precision. -/
def isInDoubleRange (lexeme : List Char) : Bool := (Scaled.ofLexeme lexeme).isInRange

end LuaCoverage.Json
