/-
Numbers as text with six significant digits.

A number is rounded to six significant digits, and the exponent of the first
of them decides the form: from `-4` up to `5` the digits are written out around
a point, otherwise the first digit stands before the point and the exponent
after an `e`. Zeros at the end of a fraction are left out, and so is a point
with nothing after it; zeros of the whole part stay.

The digits written out are those of the exact value rounded at the place where
they end. Rounding there and rounding to six digits are the same thing, because
the place is chosen by the exponent after rounding.
-/
import ScriptFront.Number.Binary64
import ScriptFront.Text.Field

set_option autoImplicit false

namespace ScriptFront.Number

/-- The number of significant digits. -/
def significantDigits : Nat := 6

/-- The least exponent of the first digit with which a number is written out. -/
def leastPlainExponent : Int := -4

/-- The least number of digits in an exponent. -/
def exponentWidth : Nat := 2

/-! ## Rounding to significant digits -/

/-- Six significant digits, and the exponent of the first. -/
structure Scientific where
  -- The digits as one natural number.
  digits : Nat
  -- The power of ten that the first digit counts.
  exponent : Int
deriving DecidableEq, Repr

/-- A positive quotient rounded to six significant digits. Rounding up from all
nines gives one digit too many, and the first digit then counts the next power. -/
def Scientific.ofRatio (r : Ratio) : Scientific :=
  let decade := r.decade
  let digits := r.scaled (significantDigits - 1 - decade)
  if digits = Nat.pow 10 significantDigits then
    { digits := Nat.pow 10 (significantDigits - 1), exponent := decade + 1 }
  else { digits, exponent := decade }

/-! ## Writing -/

/-- A text without the zeros at its end. -/
def dropTrailingZeros (s : List Char) : List Char :=
  (s.reverse.dropWhile (· == '0')).reverse

/-- The number `n / 10 ^ places` written out, without zeros at the end of its
fraction and without a bare point. -/
def pointed (n places : Nat) : String :=
  let unit := Nat.pow 10 places
  let fraction := dropTrailingZeros (Text.zeroPadded places (n % unit)).toList
  toString (n / unit) ++ (if fraction.isEmpty then "" else "." ++ String.ofList fraction)

/-- A positive quotient written out up to its sixth significant digit. -/
def plain (r : Ratio) (exponent : Int) : String :=
  let places := (significantDigits - 1 - exponent : Int)
  pointed (r.scaled places) places.toNat

/-- The exponent with its sign and at least two digits. -/
def exponentText (e : Int) : String :=
  (if e < 0 then "-" else "+") ++ Text.zeroPadded exponentWidth e.natAbs

/-- Six significant digits with one of them before the point. -/
def Scientific.text (s : Scientific) : String :=
  pointed s.digits (significantDigits - 1) ++ "e" ++ exponentText s.exponent

/-- A positive quotient in the form that its exponent asks for. -/
def general (r : Ratio) : String :=
  let s := Scientific.ofRatio r
  if leastPlainExponent ≤ s.exponent ∧ s.exponent < significantDigits then plain r s.exponent
  else s.text

/-- A number as text. -/
def Binary64.text (x : Binary64) : String :=
  if x.isNaN then "nan"
  else
    let magnitude :=
      if x.isInfinite then "inf"
      else if x.isZero then "0"
      else general x.magnitude
    (if x.isNegative then "-" else "") ++ magnitude

end ScriptFront.Number
