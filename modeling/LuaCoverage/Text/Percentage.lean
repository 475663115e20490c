/-!
# Rates and their text

A rate is the quotient of two counts as a double-precision number, and zero where there is nothing
to count. A percentage is written with one decimal: the exact value of the number is rounded to
tenths, and a value that lies halfway goes to the even neighbour.
-/

set_option autoImplicit false

namespace LuaCoverage.Text

/-- The rate of some among a total. -/
def rate (some total : Nat) : Float :=
  if total = 0 then 0.0 else (UInt64.ofNat some).toFloat / (UInt64.ofNat total).toFloat

/-- A quotient rounded to the nearest natural number; halfway goes to the even neighbour. -/
def roundQuotient (numerator denominator : Nat) : Nat :=
  let quotient := numerator / denominator
  let remainder := numerator % denominator
  if 2 * remainder < denominator then quotient
  else if denominator < 2 * remainder then quotient + 1
  else quotient + quotient % 2

/-- The nonnegative finite number with given bits, in tenths, rounded. A number of `m · 2 ^ (e -
1075)` is stored by its exponent `e` and the last 52 bits of `m`; the least exponent has no leading
bit. -/
def tenths (bits : Nat) : Nat :=
  let exponent := bits / 4503599627370496 % 2048
  let fraction := bits % 4503599627370496
  let significand := if exponent = 0 then fraction else fraction + 4503599627370496
  let scale := if exponent = 0 then 1 else exponent
  if 1075 ≤ scale then 10 * significand * Nat.pow 2 (scale - 1075)
  else roundQuotient (10 * significand) (Nat.pow 2 (1075 - scale))

/-- A nonnegative number with one decimal. -/
def oneDecimal (value : Float) : String :=
  let rounded := tenths value.toBits.toNat
  toString (rounded / 10) ++ "." ++ toString (rounded % 10)

end LuaCoverage.Text
