/-
Exact quotients and their decimal roundings.

A quotient of two natural numbers is multiplied by a power of ten and rounded
once, to the nearest natural number and from a tie to the even one. Nothing is
rounded twice and nothing is computed with less than full precision, so a
decimal digit that is written is the digit of the exact value.
-/

set_option autoImplicit false

namespace ScriptFront.Number

/-! ## Rounding a quotient -/

/-- The natural number nearest to `n / d`; of two equally near, the even one. -/
def roundDiv (n d : Nat) : Nat :=
  let q := n / d
  let r := n % d
  if d < 2 * r ∨ (2 * r = d ∧ q % 2 = 1) then q + 1 else q

/-- The rounded quotient is at most half a unit away from the exact one. -/
theorem roundDiv_near (n : Nat) {d : Nat} (h : 0 < d) :
    2 * n ≤ 2 * (roundDiv n d * d) + d ∧ 2 * (roundDiv n d * d) ≤ 2 * n + d := by
  have whole : d * (n / d) + n % d = n := Nat.div_add_mod n d
  have below : n % d < d := Nat.mod_lt _ h
  have comm : n / d * d = d * (n / d) := Nat.mul_comm _ _
  simp only [roundDiv]
  split
  · rw [Nat.add_mul]
    omega
  · omega

/-- From a tie the rounded quotient is even. -/
theorem even_roundDiv_of_tie {n d : Nat} (h : 2 * (n % d) = d) : roundDiv n d % 2 = 0 := by
  simp only [roundDiv]
  split <;> omega

/-! ## Decimal scale -/

/-- The number of decimal digits of a natural number; zero has one. -/
def digitCount (n : Nat) : Nat := (Nat.toDigits 10 n).length

/-- A quotient of natural numbers. -/
structure Ratio where
  num : Nat
  den : Nat
deriving DecidableEq, Repr

namespace Ratio

/-- The quotient times `10 ^ k`, rounded to a natural number. -/
def scaled (r : Ratio) (k : Int) : Nat :=
  if 0 ≤ k then roundDiv (r.num * Nat.pow 10 k.toNat) r.den
  else roundDiv r.num (r.den * Nat.pow 10 (-k).toNat)

/-- The greatest power of ten that a positive quotient reaches, as an exponent.
From one on it is read off the digits of the whole part; below one, off the
digits of the largest whole number that the reciprocal exceeds. -/
def decade (r : Ratio) : Int :=
  if r.den ≤ r.num then (digitCount (r.num / r.den) : Int) - 1
  else -(digitCount ((r.den - 1) / r.num) : Int)

end Ratio

end ScriptFront.Number
