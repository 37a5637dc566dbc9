/-
Rounding to six significant digits.

A positive rational lies in one decade (`InDecade`), and the unit of its sixth digit is the
one that belongs to this decade. Rounding to six digits is rounding to a multiple of that
unit, to the nearest one and from a tie to the even one (`IsNearest`); from all nines it
leads to the power of ten above, which has six digits in the next decade. `SixDigits` says
this of a number of six digits and an exponent, and there is one such pair
(`SixDigits.unique`), which `Scientific.ofRatio` finds (`Scientific.sixDigits_ofRatio`).

The digits may be rounded a second time, at the place that the exponent found by the first
rounding names. Where the first rounding stayed in its decade this is the same rounding.
Where it did not, the second one has a unit ten times as large, and what lies half a small
unit below a power of ten is rounded up to it all the more (`SixDigits.isNearest`).
-/
import Mathlib.Algebra.Order.Field.Power
import Mathlib.Algebra.Order.Ring.Abs
import Mathlib.Data.Rat.Cast.Order
import Mathlib.Tactic.Linarith
import Mathlib.Tactic.NormNum
import Mathlib.Tactic.Positivity
import Mathlib.Tactic.FieldSimp
import Mathlib.Tactic.Ring
import ScriptFront.Number.General

set_option autoImplicit false

namespace ScriptFront.Number

/-! ## The nearest natural number -/

/-- No natural number is nearer to `y` than `n`, and `n` is even if another one is as near. -/
structure IsNearest (y : ℚ) (n : ℕ) : Prop where
  near : |y - n| ≤ 1 / 2
  even : |y - n| = 1 / 2 → Even n

namespace IsNearest

variable {y z : ℚ} {m n : ℕ}

/-- Of nearest numbers, that of the greater one is not smaller. If it were, both `y` and `z`
would lie in the middle between two neighbours, and one of these is odd. -/
theorem mono (hm : IsNearest y m) (hn : IsNearest z n) (hle : y ≤ z) : m ≤ n := by
  by_contra hlt
  rw [Nat.not_le] at hlt
  have hlow := (abs_le.mp hm.near).1
  have hhigh := (abs_le.mp hn.near).2
  have hnext : m = n + 1 := by
    have hclose : (m : ℚ) ≤ n + 1 := by linarith
    have : m ≤ n + 1 := by exact_mod_cast hclose
    omega
  subst hnext
  push_cast at hlow
  have hmiddle : y = n + 1 / 2 := by linarith
  have hmiddle' : z = n + 1 / 2 := by linarith
  have hodd := hm.even (by rw [hmiddle]; push_cast; norm_num)
  have heven := hn.even (by rw [hmiddle']; norm_num)
  exact absurd hodd (by simpa [Nat.even_add_one] using heven)

/-- There is at most one nearest natural number: a tie goes to the even one. -/
theorem unique (hm : IsNearest y m) (hn : IsNearest y n) : m = n :=
  Nat.le_antisymm (hm.mono hn le_rfl) (hn.mono hm le_rfl)

end IsNearest

/-- Where the rounded quotient is half a unit away, half a unit is what division leaves. -/
theorem two_mul_mod_eq {n d : ℕ} (hd : 0 < d)
    (h : 2 * n = 2 * (roundDiv n d * d) + d ∨ 2 * n + d = 2 * (roundDiv n d * d)) :
    2 * (n % d) = d := by
  have hwhole : n / d * d + n % d = n := Nat.div_add_mod' n d
  have hbelow : n % d < d := Nat.mod_lt n hd
  have hcases : roundDiv n d = n / d ∨ roundDiv n d = n / d + 1 := by
    simp only [roundDiv]
    split
    · exact .inr rfl
    · exact .inl rfl
  rcases hcases with hround | hround
  · rw [hround] at h
    omega
  · rw [hround, Nat.add_mul, Nat.one_mul] at h
    omega

/-- A rounded quotient is nearest to the exact one. -/
theorem isNearest_roundDiv (n : ℕ) {d : ℕ} (hd : 0 < d) :
    IsNearest ((n : ℚ) / d) (roundDiv n d) := by
  have hpos : (0 : ℚ) < d := by exact_mod_cast hd
  have hexact : (n : ℚ) / d * d = n := div_mul_cancel₀ _ hpos.ne'
  obtain ⟨habove, hbelow⟩ := roundDiv_near n hd
  have habove' : (2 : ℚ) * n ≤ 2 * (roundDiv n d * d) + d := by exact_mod_cast habove
  have hbelow' : (2 : ℚ) * (roundDiv n d * d) ≤ 2 * n + d := by exact_mod_cast hbelow
  refine ⟨abs_le.mpr ⟨?_, ?_⟩, ?_⟩
  · rw [neg_le_sub_iff_le_add, ← mul_le_mul_iff_of_pos_right hpos]
    linarith
  · rw [sub_le_iff_le_add, ← mul_le_mul_iff_of_pos_right hpos]
    linarith
  · intro htie
    have hhalf : 2 * n = 2 * (roundDiv n d * d) + d ∨ 2 * n + d = 2 * (roundDiv n d * d) := by
      rcases (abs_eq (by norm_num)).mp htie with h | h
      · left
        have hup : (n : ℚ) = (roundDiv n d + 1 / 2) * d := by
          rw [← hexact, sub_eq_iff_eq_add.mp h, add_comm]
        have : (2 : ℚ) * n = 2 * (roundDiv n d * d) + d := by
          rw [hup]
          ring
        exact_mod_cast this
      · right
        have hdown : (n : ℚ) = (roundDiv n d - 1 / 2) * d := by
          rw [← hexact, sub_eq_iff_eq_add.mp h]
          ring
        have : (2 : ℚ) * n + d = 2 * (roundDiv n d * d) := by
          rw [hdown]
          ring
        exact_mod_cast this
    exact Nat.even_iff.mpr (even_roundDiv_of_tie (two_mul_mod_eq hd hhalf))

/-! ## Decades -/

/-- The first digit of `q` counts the power of ten with this exponent. -/
def InDecade (q : ℚ) (e : ℤ) : Prop := 10 ^ e ≤ q ∧ q < 10 ^ (e + 1)

/-- A number lies in at most one decade. -/
theorem InDecade.unique {q : ℚ} {e e' : ℤ} (h : InDecade q e) (h' : InDecade q e') : e = e' := by
  have hten : (1 : ℚ) < 10 := by norm_num
  have hle := (zpow_lt_zpow_iff_right₀ hten).mp (h.1.trans_lt h'.2)
  have hge := (zpow_lt_zpow_iff_right₀ hten).mp (h'.1.trans_lt h.2)
  omega

/-- The value of a quotient. -/
def Ratio.value (r : Ratio) : ℚ := r.num / r.den

/-- The digits of a positive number are counted by the powers of ten around it. -/
theorem exists_digitCount {n : ℕ} (hn : 0 < n) :
    ∃ k, digitCount n = k + 1 ∧ 10 ^ k ≤ n ∧ n < 10 ^ (k + 1) := by
  obtain ⟨k, hk⟩ : ∃ k, digitCount n = k + 1 :=
    Nat.exists_eq_succ_of_ne_zero (Nat.ne_of_gt Nat.length_toDigits_pos)
  have hlength : (Nat.toDigits 10 n).length = k + 1 := hk
  refine ⟨k, hk, ?_, ?_⟩
  · cases k with
    | zero => exact hn
    | succ k =>
      have hmore := (Nat.length_toDigits_le_iff (n := n) (by decide : 1 < 10) k.succ_pos).not.mp
        (by omega)
      exact Nat.le_of_not_lt hmore
  · exact (Nat.length_toDigits_le_iff (by decide) k.succ_pos).mp (Nat.le_of_eq hlength)

/-- **The decade that is read off the digits is the one of the value.** -/
theorem Ratio.inDecade_decade {r : Ratio} (hnum : 0 < r.num) (hden : 0 < r.den) :
    InDecade r.value r.decade := by
  have hnumpos : (0 : ℚ) < r.num := by exact_mod_cast hnum
  have hdenpos : (0 : ℚ) < r.den := by exact_mod_cast hden
  unfold decade value
  split
  · next hle =>
    -- The whole part has as many digits as the quotient has before its point.
    obtain ⟨k, hcount, hlow, hhigh⟩ := exists_digitCount (Nat.div_pos hle hden)
    have hexponent : (digitCount (r.num / r.den) : ℤ) - 1 = (k : ℤ) := by omega
    have hbelow : 10 ^ k * r.den ≤ r.num := (Nat.le_div_iff_mul_le hden).mp hlow
    have habove : r.num < 10 ^ (k + 1) * r.den := (Nat.div_lt_iff_lt_mul hden).mp hhigh
    rw [hexponent]
    constructor
    · rw [zpow_natCast, le_div_iff₀ hdenpos]
      exact_mod_cast hbelow
    · rw [← Nat.cast_succ, zpow_natCast, div_lt_iff₀ hdenpos]
      exact_mod_cast habove
  · next hlt =>
    -- The reciprocal exceeds a whole number and at most reaches the next one.
    have hpos : 0 < (r.den - 1) / r.num := Nat.div_pos (by omega) hnum
    obtain ⟨k, hcount, hlow, hhigh⟩ := exists_digitCount hpos
    have hexceeds : 10 ^ k * r.num ≤ r.den - 1 := (Nat.le_div_iff_mul_le hnum).mp hlow
    have hreaches : r.den - 1 < 10 ^ (k + 1) * r.num := (Nat.div_lt_iff_lt_mul hnum).mp hhigh
    have hbelow : r.den ≤ 10 ^ (k + 1) * r.num := by omega
    have habove : 10 ^ k * r.num < r.den := by omega
    rw [hcount]
    constructor
    · rw [zpow_neg, zpow_natCast, inv_le_comm₀ (by positivity) (by positivity), inv_div,
        div_le_iff₀ hnumpos]
      exact_mod_cast hbelow
    · have hexponent : -((k + 1 : ℕ) : ℤ) + 1 = -(k : ℤ) := by omega
      rw [hexponent, zpow_neg, zpow_natCast, lt_inv_comm₀ (by positivity) (by positivity), inv_div,
        lt_div_iff₀ hnumpos]
      exact_mod_cast habove

/-- A quotient times a power of ten is rounded to the nearest number. -/
theorem Ratio.isNearest_scaled {r : Ratio} (hden : 0 < r.den) (k : ℤ) :
    IsNearest (r.value * 10 ^ k) (r.scaled k) := by
  unfold scaled value
  split
  · next hk =>
    obtain ⟨n, rfl⟩ := Int.eq_ofNat_of_zero_le hk
    have hround := isNearest_roundDiv (r.num * 10 ^ n) hden
    rw [Nat.cast_mul, Nat.cast_pow, ← div_mul_eq_mul_div, ← zpow_natCast] at hround
    exact_mod_cast hround
  · next hk =>
    obtain ⟨n, rfl⟩ : ∃ n : ℕ, k = -(n : ℤ) := ⟨(-k).toNat, by omega⟩
    have hpos : 0 < r.den * 10 ^ n := by positivity
    have hround := isNearest_roundDiv r.num hpos
    rw [Nat.cast_mul, Nat.cast_pow, ← div_div, div_eq_mul_inv (_ / _), ← zpow_natCast,
      ← zpow_neg] at hround
    rw [neg_neg]
    exact_mod_cast hround

/-! ## Six digits -/

/-- `d` is a number of six digits, and with `X` as the exponent of the first digit it is
`q`, rounded to six significant digits: the sixth digit of a number in the decade `e`
counts `10 ^ (e - 5)`, and `n` of these units are nearest to `q`. -/
structure SixDigits (q : ℚ) (d : ℕ) (X : ℤ) : Prop where
  least : 100000 ≤ d
  below : d < 1000000
  rounded : ∃ (e : ℤ) (n : ℕ), InDecade q e ∧ IsNearest (q * 10 ^ (5 - e)) n ∧
    (d : ℚ) * 10 ^ (X - 5) = n * 10 ^ (e - 5)

/-- Scaled by its decade, a number has six digits before the point. -/
theorem InDecade.bounds {q : ℚ} {e : ℤ} (h : InDecade q e) :
    100000 ≤ q * 10 ^ (5 - e) ∧ q * 10 ^ (5 - e) < 1000000 := by
  have hpos : (0 : ℚ) < 10 ^ (5 - e) := by positivity
  have hlow : (10 : ℚ) ^ e * 10 ^ (5 - e) = 100000 := by
    rw [← zpow_add₀ (by norm_num), add_sub_cancel]
    norm_num
  have hhigh : (10 : ℚ) ^ (e + 1) * 10 ^ (5 - e) = 1000000 := by
    rw [← zpow_add₀ (by norm_num), show e + 1 + (5 - e) = 6 by ring]
    norm_num
  constructor
  · rw [← hlow]
    exact mul_le_mul_of_nonneg_right h.1 hpos.le
  · rw [← hhigh]
    exact mul_lt_mul_of_pos_right h.2 hpos

/-- Six digits stand in the decade that the first of them names. -/
theorem inDecade_digits {d : ℕ} (hleast : 100000 ≤ d) (hbelow : d < 1000000) (X : ℤ) :
    InDecade ((d : ℚ) * 10 ^ (X - 5)) X := by
  have hpos : (0 : ℚ) < 10 ^ (X - 5) := by positivity
  have hleast' : (100000 : ℚ) ≤ d := by exact_mod_cast hleast
  have hbelow' : (d : ℚ) < 1000000 := by exact_mod_cast hbelow
  have hlow : (10 : ℚ) ^ X = 100000 * 10 ^ (X - 5) := by
    rw [zpow_sub₀ (by norm_num)]
    ring
  have hhigh : (10 : ℚ) ^ (X + 1) = 1000000 * 10 ^ (X - 5) := by
    rw [zpow_add₀ (by norm_num), hlow]
    ring
  constructor
  · rw [hlow]
    exact mul_le_mul_of_nonneg_right hleast' hpos.le
  · rw [hhigh]
    exact mul_lt_mul_of_pos_right hbelow' hpos

/-- Rounding a number with six digits before the point can carry into a seventh, and no further.
-/
theorem IsNearest.bounds {y : ℚ} {n : ℕ} (h : IsNearest y n) (hlow : 100000 ≤ y)
    (hhigh : y < 1000000) : 100000 ≤ n ∧ n ≤ 1000000 := by
  obtain ⟨hbelow, habove⟩ := abs_le.mp h.near
  have hleast : (99999 : ℚ) < n := by linarith
  have hmost : (n : ℚ) < 1000001 := by linarith
  have hleast' : 99999 < n := by exact_mod_cast hleast
  have hmost' : n < 1000001 := by exact_mod_cast hmost
  omega

/-- A million units of one decade are a hundred thousand of the next. -/
theorem carry_eq (e : ℤ) : (100000 : ℚ) * 10 ^ (e + 1 - 5) = 1000000 * 10 ^ (e - 5) := by
  rw [show e + 1 - 5 = e - 5 + 1 by ring, zpow_add₀ (by norm_num)]
  ring

namespace SixDigits

variable {q : ℚ} {d d' : ℕ} {X X' : ℤ}

/-- Rounding stays in the decade, or it carries into the next one. -/
theorem stays_or_carries (h : SixDigits q d X) :
    ∃ e, InDecade q e ∧ ((X = e ∧ IsNearest (q * 10 ^ (5 - e)) d) ∨
      (X = e + 1 ∧ d = 100000 ∧ IsNearest (q * 10 ^ (5 - e)) 1000000)) := by
  obtain ⟨e, n, he, hn, hsame⟩ := h.rounded
  obtain ⟨hleast, hmost⟩ := hn.bounds he.bounds.1 he.bounds.2
  refine ⟨e, he, ?_⟩
  -- Both sides of the equation lie in one decade, which is that of `d` and that of `n`.
  have hdecade := inDecade_digits h.least h.below X
  rcases Nat.lt_or_eq_of_le hmost with hbelow | rfl
  · left
    rw [hsame] at hdecade
    obtain rfl : X = e := hdecade.unique (inDecade_digits hleast hbelow e)
    have hdigits : (d : ℚ) = n := mul_right_cancel₀ (by positivity) hsame
    obtain rfl : d = n := by exact_mod_cast hdigits
    exact ⟨rfl, hn⟩
  · right
    have hcarry : (d : ℚ) * 10 ^ (X - 5) = (100000 : ℕ) * 10 ^ (e + 1 - 5) := by
      rw [hsame]
      exact_mod_cast (carry_eq e).symm
    rw [hcarry] at hdecade
    obtain rfl : X = e + 1 :=
      hdecade.unique (inDecade_digits (by norm_num) (by norm_num) (e + 1))
    have hdigits : (d : ℚ) = (100000 : ℕ) := mul_right_cancel₀ (by positivity) hcarry
    exact ⟨rfl, by exact_mod_cast hdigits, hn⟩

/-- **A number has six significant digits in one way.** -/
theorem unique (h : SixDigits q d X) (h' : SixDigits q d' X') : d = d' ∧ X = X' := by
  obtain ⟨e, he, hcases⟩ := h.stays_or_carries
  obtain ⟨e', he', hcases'⟩ := h'.stays_or_carries
  obtain rfl := he.unique he'
  rcases hcases with ⟨rfl, hn⟩ | ⟨rfl, rfl, hn⟩
  · rcases hcases' with ⟨rfl, hn'⟩ | ⟨rfl, rfl, hn'⟩
    · exact ⟨hn.unique hn', rfl⟩
    · exact absurd (hn.unique hn') h.below.ne
  · rcases hcases' with ⟨rfl, hn'⟩ | ⟨rfl, rfl, hn'⟩
    · exact absurd (hn'.unique hn) h'.below.ne
    · exact ⟨rfl, rfl⟩

/-- **Rounding at the place of the sixth digit gives the six digits again**, where this
place is chosen by the exponent after rounding. -/
theorem isNearest (h : SixDigits q d X) : IsNearest (q * 10 ^ (5 - X)) d := by
  obtain ⟨e, he, hcases⟩ := h.stays_or_carries
  rcases hcases with ⟨rfl, hn⟩ | ⟨rfl, rfl, hn⟩
  · exact hn
  · have hstep : q * 10 ^ (5 - (e + 1)) = q * 10 ^ (5 - e) / 10 := by
      rw [show 5 - (e + 1) = 5 - e - 1 by ring, zpow_sub_one₀ (by norm_num)]
      ring
    obtain ⟨hbelow, habove⟩ := abs_le.mp hn.near
    push_cast at hbelow habove
    have hclose : |q * 10 ^ (5 - e) / 10 - (100000 : ℕ)| ≤ 1 / 20 := by
      rw [abs_le]
      push_cast
      constructor <;> linarith
    rw [hstep]
    refine ⟨hclose.trans (by norm_num), ?_⟩
    intro htie
    rw [htie] at hclose
    norm_num at hclose

end SixDigits

/-- **The digits that are computed are the six digits of the value.** -/
theorem Scientific.sixDigits_ofRatio {r : Ratio} (hnum : 0 < r.num) (hden : 0 < r.den) :
    SixDigits r.value (ofRatio r).digits (ofRatio r).exponent := by
  have he := r.inDecade_decade hnum hden
  have hn := r.isNearest_scaled hden (5 - r.decade)
  obtain ⟨hleast, hmost⟩ := hn.bounds he.bounds.1 he.bounds.2
  unfold ofRatio
  dsimp only
  split
  · next hcarry =>
    have hmillion : r.scaled (5 - r.decade) = 1000000 := hcarry
    have hdigits : Nat.pow 10 (significantDigits - 1) = 100000 := rfl
    refine ⟨hdigits.ge, by rw [hdigits]; norm_num, r.decade, _, he, hn, ?_⟩
    rw [hmillion, hdigits]
    exact_mod_cast carry_eq r.decade
  · next hstay =>
    have hother : r.scaled (5 - r.decade) ≠ 1000000 := hstay
    exact ⟨hleast, lt_of_le_of_ne hmost hother, r.decade, _, he, hn, rfl⟩

end ScriptFront.Number
