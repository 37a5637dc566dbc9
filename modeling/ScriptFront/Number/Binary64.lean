/-
Binary floating-point numbers of 64 bits.

A number is its word: one sign bit, eleven bits of exponent and fifty-two bits
of fraction. The word says exactly which rational a finite number is, and
everything here is computed from it: the magnitude as a quotient of natural
numbers, and the order through an integer key on which both zeros agree. A
number that is not a number has no key, so it is neither below, equal to nor
above anything.
-/
import ScriptFront.Number.Rounding

set_option autoImplicit false

namespace ScriptFront.Number

/-- A 64-bit floating-point number, by its bits. -/
structure Binary64 where
  -- The sign, exponent and fraction, from the highest bit down.
  bits : UInt64
deriving DecidableEq, Repr, Inhabited

namespace Binary64

/-- The sign bit, in the place it has in a word. -/
def signBit : Nat := 0x8000000000000000

/-- The bit above the fraction field, which the fractions of most numbers continue. -/
def leadingBit : Nat := 0x10000000000000

/-- Positive zero. -/
def zero : Binary64 := ⟨0⟩

/-- Whether the sign bit is set. -/
def isNegative (x : Binary64) : Bool := signBit ≤ x.bits.toNat

/-- The word without its sign bit. -/
def unsigned (x : Binary64) : Nat := x.bits.toNat % signBit

/-- The exponent field. -/
def exponentField (x : Binary64) : Nat := x.unsigned / leadingBit

/-- The fraction field. -/
def fraction (x : Binary64) : Nat := x.unsigned % leadingBit

/-- Whether the word stands for no number. -/
def isNaN (x : Binary64) : Bool := x.exponentField = 2047 && x.fraction ≠ 0

/-- Whether the word stands for an infinity. -/
def isInfinite (x : Binary64) : Bool := x.exponentField = 2047 && x.fraction = 0

/-- Whether the word stands for one of the two zeros. -/
def isZero (x : Binary64) : Bool := x.unsigned = 0

/-- The magnitude of a finite number as an exact quotient. The least exponent
field stands for the same scale as the next one, without the leading bit. -/
def magnitude (x : Binary64) : Ratio :=
  let significand := if x.exponentField = 0 then x.fraction else leadingBit + x.fraction
  let scale := max x.exponentField 1
  if 1075 ≤ scale then { num := significand * Nat.pow 2 (scale - 1075), den := 1 }
  else { num := significand, den := Nat.pow 2 (1075 - scale) }

/-! ## Order -/

/-- An integer that orders the numbers; words that stand for no number have none. -/
def key? (x : Binary64) : Option Int :=
  if x.isNaN then none
  else if x.isNegative then some (-x.unsigned)
  else some x.unsigned

/-- How two numbers compare, if they do. -/
def compare? (x y : Binary64) : Option Ordering := do
  return compare (← x.key?) (← y.key?)

/-- Whether two numbers are equal. -/
def equal (x y : Binary64) : Bool := x.compare? y = some .eq

/-- Whether the first number is below the second. -/
def less (x y : Binary64) : Bool := x.compare? y = some .lt

/-- Whether the first number is below the second or equal to it. -/
def lessEqual (x y : Binary64) : Bool := x.less y || x.equal y

end Binary64

end ScriptFront.Number
