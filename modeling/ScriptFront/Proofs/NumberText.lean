/-
Numbers show their value to six significant digits.

`Binary64.value` is the value that a word stands for, from its sign, exponent and fraction,
and `Shows` says how a number of six digits with an exponent is written: around its point,
or with one digit before the point and the exponent behind an `e`. That this is what
`Binary64.text` does for the six digits of the value (`Binary64.text_sixDigits`) comes from
two parts, the digits (`Scientific.sixDigits_ofRatio`) and the way they are written
(`spells_pointed`). They meet in `scaled_exponent`: the digits that are written around a
point are rounded once more, at another place, and are the same.
-/
import ScriptFront.Proofs.PointNotation
import ScriptFront.Proofs.SixDigits

set_option autoImplicit false

namespace ScriptFront.Number

/-! ## The value of a word -/

namespace Binary64

/-- Whether the word stands for a number that is not infinite. -/
def IsFinite (x : Binary64) : Prop := x.exponentField ≠ 2047

instance (x : Binary64) : Decidable x.IsFinite := inferInstanceAs (Decidable (_ ≠ _))

/-- The value of a finite number. With the least exponent field the fraction stands alone,
in units of `2 ^ -1074`; with any other one a leading bit stands before it, and each step
of the field doubles the unit. -/
def value (x : Binary64) : ℚ :=
  (if x.isNegative then -1 else 1) *
    if x.exponentField = 0 then (x.fraction : ℚ) * 2 ^ (-1074 : ℤ)
    else ((leadingBit + x.fraction : ℕ) : ℚ) * 2 ^ ((x.exponentField : ℤ) - 1075)

theorem den_magnitude_pos (x : Binary64) : 0 < x.magnitude.den := by
  unfold magnitude
  dsimp only
  split
  · exact Nat.one_pos
  · exact Nat.pow_pos Nat.two_pos

/-- The quotient that is computed with counts units of the last bit. -/
theorem value_magnitude (x : Binary64) :
    x.magnitude.value =
      ((if x.exponentField = 0 then x.fraction else leadingBit + x.fraction : ℕ) : ℚ) *
        2 ^ ((max x.exponentField 1 : ℕ) - 1075 : ℤ) := by
  unfold magnitude
  generalize (if x.exponentField = 0 then x.fraction else leadingBit + x.fraction) = significand
  generalize max x.exponentField 1 = scale
  dsimp only
  split
  · next hlarge =>
    obtain ⟨k, rfl⟩ := Nat.exists_eq_add_of_le hlarge
    have hpower : ((Nat.pow 2 k : ℕ) : ℚ) = 2 ^ k := Nat.cast_pow 2 k
    have hexponent : ((1075 + k : ℕ) : ℤ) - 1075 = k := by omega
    rw [hexponent, zpow_natCast, Ratio.value, Nat.add_sub_cancel_left, Nat.cast_mul, hpower,
      Nat.cast_one, div_one]
  · next hsmall =>
    obtain ⟨k, hk⟩ := Nat.exists_eq_add_of_le (Nat.le_of_not_le hsmall)
    have hpower : ((Nat.pow 2 k : ℕ) : ℚ) = 2 ^ k := Nat.cast_pow 2 k
    have hexponent : (scale : ℤ) - 1075 = -k := by omega
    rw [hexponent, zpow_neg, zpow_natCast, Ratio.value, hk, Nat.add_sub_cancel_left, hpower,
      div_eq_mul_inv]

/-- The sign bit, and the quotient that is computed with. -/
theorem value_eq (x : Binary64) :
    x.value = (if x.isNegative then -1 else 1) * x.magnitude.value := by
  rw [value, value_magnitude]
  by_cases hleast : x.exponentField = 0
  · have hscale : ((max x.exponentField 1 : ℕ) : ℤ) - 1075 = -1074 := by omega
    rw [hscale, if_pos hleast, if_pos hleast]
  · have hscale : max x.exponentField 1 = x.exponentField := by omega
    rw [hscale, if_neg hleast, if_neg hleast]

/-- A number is its magnitude, up to the sign. -/
theorem abs_value (x : Binary64) : |x.value| = x.magnitude.value := by
  have hnonneg : 0 ≤ x.magnitude.value := by
    unfold Ratio.value
    positivity
  rw [value_eq, abs_mul, abs_of_nonneg hnonneg]
  split
  · rw [abs_neg, abs_one, one_mul]
  · rw [abs_one, one_mul]

variable {x : Binary64}

theorem num_magnitude_pos (hvalue : x.value ≠ 0) : 0 < x.magnitude.num := by
  rw [Nat.pos_iff_ne_zero]
  intro hzero
  refine hvalue (abs_eq_zero.mp ?_)
  rw [abs_value, Ratio.value, hzero, Nat.cast_zero, zero_div]

/-- Of the numbers that are not zero, those with a sign bit are negative. -/
theorem value_neg_iff (hvalue : x.value ≠ 0) : x.value < 0 ↔ x.isNegative = true := by
  have hpos : 0 < x.magnitude.value := abs_value x ▸ abs_pos.mpr hvalue
  rw [value_eq]
  split
  · next hneg => exact iff_of_true (by linarith) hneg
  · next hnonneg => exact iff_of_false (by linarith) hnonneg

/-- A number with a value is neither of the two zeros. -/
theorem isZero_eq_false (hvalue : x.value ≠ 0) : x.isZero = false := by
  by_contra hzero
  have hunsigned : x.unsigned = 0 := by simpa [isZero] using hzero
  have hfield : x.exponentField = 0 := by rw [exponentField, hunsigned, Nat.zero_div]
  have hfraction : x.fraction = 0 := by rw [fraction, hunsigned, Nat.zero_mod]
  refine hvalue ?_
  rw [value, if_pos hfield, hfraction, Nat.cast_zero, zero_mul, mul_zero]

end Binary64

/-! ## How six digits are written -/

/-- The sign of a number, which only a negative one shows. -/
def signText (q : ℚ) : List Char := if q < 0 then ['-'] else []

/-- An exponent with its sign and at least two digits. -/
def exponentForm (X : ℤ) : List Char :=
  (if X < 0 then '-' else '+') ::
    ((if X.natAbs < 10 then ['0'] else []) ++ Nat.toDigits 10 X.natAbs)

/-- How the number `d * 10 ^ (X - 5)` of six digits is written, with the sign of `q`. -/
inductive Shows (q : ℚ) (d : ℕ) (X : ℤ) : List Char → Prop where
  | plain {w : List Char} : -4 ≤ X → X < 6 → Spells w (d * 10 ^ (X - 5)) →
      Shows q d X (signText q ++ w)
  | scientific {w : List Char} : X < -4 ∨ 6 ≤ X → Spells w (d / 10 ^ 5) →
      Shows q d X (signText q ++ (w ++ 'e' :: exponentForm X))

/-- Six digits and an exponent are written in one way. -/
theorem Shows.unique {q : ℚ} {d : ℕ} {X : ℤ} {s t : List Char} (hs : Shows q d X s)
    (ht : Shows q d X t) : s = t := by
  cases hs with
  | plain hlow hhigh hw =>
    cases ht with
    | plain _ _ hw' => rw [hw.unique hw']
    | scientific hX _ => omega
  | scientific hX hw =>
    cases ht with
    | plain hlow hhigh _ => omega
    | scientific _ hw' => rw [hw.unique hw']

/-- **Rounding a second time gives the same digits.** -/
theorem scaled_exponent {r : Ratio} (hnum : 0 < r.num) (hden : 0 < r.den) :
    r.scaled (5 - (Scientific.ofRatio r).exponent) = (Scientific.ofRatio r).digits :=
  (r.isNearest_scaled hden _).unique (Scientific.sixDigits_ofRatio hnum hden).isNearest

/-- An exponent is written with its sign and at least two digits. -/
theorem toList_exponentText (X : ℤ) : (exponentText X).toList = exponentForm X := by
  have hwidth : exponentWidth - (toString X.natAbs).length = if X.natAbs < 10 then 1 else 0 := by
    have hshort : (toString X.natAbs).length ≤ 1 ↔ X.natAbs < 10 :=
      Nat.length_repr_le_iff Nat.one_pos
    have hsome : (toString X.natAbs).length ≠ 0 := by
      intro hempty
      obtain ⟨c, t, hcons, -⟩ := exists_cons_toString X.natAbs
      rw [← String.length_toList, hcons] at hempty
      exact absurd hempty (Nat.succ_ne_zero _)
    rw [exponentWidth]
    split <;> omega
  rw [exponentText, String.toList_append, Text.toList_zeroPadded, hwidth, toList_toString,
    exponentForm]
  split <;> split <;> rfl

/-- A positive ratio is written as its six digits and its exponent show it. -/
theorem toList_general {r : Ratio} (hnum : 0 < r.num) (hden : 0 < r.den) (q : ℚ) :
    Shows q (Scientific.ofRatio r).digits (Scientific.ofRatio r).exponent
      (signText q ++ (general r).toList) := by
  have hsame := scaled_exponent hnum hden
  unfold general
  dsimp only
  generalize Scientific.ofRatio r = s at hsame ⊢
  have hsix : ((significantDigits : ℕ) : ℤ) = 6 := rfl
  rw [hsix, leastPlainExponent]
  split
  · next hplain =>
    obtain ⟨k, hk⟩ : ∃ k : ℕ, 5 - s.exponent = k := Int.eq_ofNat_of_zero_le (by omega)
    have hspells := spells_pointed s.digits k
    have hunit : (s.digits : ℚ) * 10 ^ (s.exponent - 5) = s.digits / 10 ^ k := by
      rw [← neg_sub, hk, zpow_neg, zpow_natCast, div_eq_mul_inv]
    have htext : plain r s.exponent = pointed s.digits k := by
      have hplaces : (significantDigits - 1 - s.exponent : ℤ) = 5 - s.exponent := rfl
      simp only [plain, hplaces]
      rw [hsame, hk, Int.toNat_natCast]
    rw [htext]
    exact .plain hplain.1 hplain.2 (hunit ▸ hspells)
  · next hscientific =>
    have hspells : Spells (pointed s.digits (significantDigits - 1)).toList (s.digits / 10 ^ 5) :=
      spells_pointed s.digits 5
    have htext : s.text.toList = (pointed s.digits (significantDigits - 1)).toList ++
        'e' :: exponentForm s.exponent := by
      rw [Scientific.text, String.toList_append, String.toList_append, toList_exponentText,
        List.append_assoc]
      rfl
    rw [htext]
    exact .scientific (by omega) hspells

/-! ## The text of a number -/

/-- A finite number that is not zero is written with its sign and its magnitude. -/
theorem Binary64.toList_text {x : Binary64} (hfinite : x.IsFinite) (hvalue : x.value ≠ 0) :
    x.text.toList = signText x.value ++ (general x.magnitude).toList := by
  have hnumber : x.isNaN = false := by
    rw [isNaN, decide_eq_false hfinite, Bool.false_and]
  have hbounded : x.isInfinite = false := by
    rw [isInfinite, decide_eq_false hfinite, Bool.false_and]
  rw [text, hnumber, hbounded, isZero_eq_false hvalue, signText]
  simp only [value_neg_iff hvalue, Bool.false_eq_true, if_false, String.toList_append]
  split <;> rfl

/-- **A number shows its value, rounded to six significant digits.** These are one number
`d` of six digits with one exponent `X`, there is one text that writes them with the sign of
the value, and it is the text of the number. The digits that are written around a point are
rounded for themselves, at the place that the exponent names; they are the same digits. -/
theorem Binary64.text_sixDigits (x : Binary64) (hfinite : x.IsFinite) (hvalue : x.value ≠ 0) :
    ∃ d X, (∀ d' X', SixDigits |x.value| d' X' ↔ d' = d ∧ X' = X) ∧
      (∀ text, Shows x.value d X text ↔ text = x.text.toList) ∧
      x.magnitude.scaled (5 - X) = d ∧ IsNearest (|x.value| * 10 ^ (5 - X)) d := by
  have hnum := num_magnitude_pos hvalue
  have hden := x.den_magnitude_pos
  have hdigits := Scientific.sixDigits_ofRatio hnum hden
  have hshows := toList_general hnum hden x.value
  rw [← toList_text hfinite hvalue] at hshows
  rw [← abs_value] at hdigits
  refine ⟨(Scientific.ofRatio x.magnitude).digits, (Scientific.ofRatio x.magnitude).exponent,
    ?_, ?_, scaled_exponent hnum hden, hdigits.isNearest⟩
  · intro d' X'
    constructor
    · exact fun hother => hother.unique hdigits
    · rintro ⟨rfl, rfl⟩
      exact hdigits
  · intro text
    constructor
    · exact fun hother => hother.unique hshows
    · rintro rfl
      exact hshows

/-- Half below a million, six digits carry into the next decade. -/
theorem Binary64.text_sixDigits_carry :
    let x : Binary64 := ⟨0x412E847F00000000⟩
    x.IsFinite ∧ x.value = 1999999 / 2 ∧ x.text = "1e+06" ∧
      ∃ d X, (∀ d' X', SixDigits |x.value| d' X' ↔ d' = d ∧ X' = X) ∧
        (∀ text, Shows x.value d X text ↔ text = x.text.toList) ∧
        x.magnitude.scaled (5 - X) = d ∧ IsNearest (|x.value| * 10 ^ (5 - X)) d := by
  intro x
  have hfinite : x.IsFinite := by decide +kernel
  have hvalue : x.value = 1999999 / 2 := by
    have hsign : x.isNegative = false := by decide +kernel
    have hfield : x.exponentField = 1042 := by decide +kernel
    have hsignificand : leadingBit + x.fraction = 1999999 * 2 ^ 32 := by decide +kernel
    rw [value, hsign, hfield, hsignificand]
    norm_num
  have hne : x.value ≠ 0 := by
    rw [hvalue]
    norm_num
  exact ⟨hfinite, hvalue, by decide +kernel, x.text_sixDigits hfinite hne⟩

end ScriptFront.Number
