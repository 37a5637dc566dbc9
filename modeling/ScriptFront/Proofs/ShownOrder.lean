/-
The order of numbers and the order of what they show.

Rounding to six significant digits has a unit that grows from decade to decade, so two
numbers may be rounded with different units, and one of them may carry into the decade of
the other. It keeps the order all the same: in one decade the nearest multiple of the unit
does not fall when a number grows (`IsNearest.mono`), and between decades there is always a
power of ten, which both roundings leave where it is (`SixDigits.mono`).

The text of a number is read as the rounded number in either notation, so the numbers that
are read from two texts stand in the order of those that were written (`text_mono`). A
number and its negation differ in the sign bit alone, and their texts in a minus sign.
-/
import ScriptFront.Proofs.DecimalReading

set_option autoImplicit false

namespace ScriptFront.Number

/-! ## Rounding keeps the order -/

/-- What lies in a decade is positive. -/
theorem InDecade.pos {q : ℚ} {e : ℤ} (h : InDecade q e) : 0 < q :=
  lt_of_lt_of_le (zpow_pos (by norm_num) e) h.1

/-- Of two numbers in order the decades are in order. -/
theorem InDecade.le {q q' : ℚ} {e e' : ℤ} (h : InDecade q e) (h' : InDecade q' e')
    (hle : q ≤ q') : e ≤ e' := by
  have hten : (1 : ℚ) < 10 := by norm_num
  have hlt : (10 : ℚ) ^ e < 10 ^ (e' + 1) := lt_of_le_of_lt (h.1.trans hle) h'.2
  have hexponent := (zpow_lt_zpow_iff_right₀ hten).mp hlt
  omega

namespace SixDigits

variable {q q' : ℚ} {d d' : ℕ} {X X' : ℤ}

/-- What six digits are rounded from is positive. -/
theorem pos (h : SixDigits q d X) : 0 < q := by
  obtain ⟨e, n, he, -, -⟩ := h.rounded
  exact he.pos

/-- Six digits stand for a positive number. -/
theorem value_pos (h : SixDigits q d X) : 0 < (d : ℚ) * 10 ^ (X - 5) := by
  have hdigits : 0 < d := Nat.lt_of_lt_of_le (by norm_num) h.least
  positivity

/-- **A greater number has no smaller six digits.** -/
theorem mono (h : SixDigits q d X) (h' : SixDigits q' d' X') (hle : q ≤ q') :
    (d : ℚ) * 10 ^ (X - 5) ≤ d' * 10 ^ (X' - 5) := by
  obtain ⟨e, n, he, hn, hvalue⟩ := h.rounded
  obtain ⟨e', n', he', hn', hvalue'⟩ := h'.rounded
  have hunit : (0 : ℚ) < 10 ^ (e - 5) := by positivity
  have hunit' : (0 : ℚ) < 10 ^ (e' - 5) := by positivity
  rw [hvalue, hvalue']
  rcases Int.lt_or_eq_of_le (he.le he' hle) with hlt | rfl
  · -- The power of ten at which the upper decade begins lies between the two.
    have hmost : (n : ℚ) ≤ 1000000 := by exact_mod_cast (hn.bounds he.bounds.1 he.bounds.2).2
    have hleast : (100000 : ℚ) ≤ n' := by exact_mod_cast (hn'.bounds he'.bounds.1 he'.bounds.2).1
    have hstep : (10 : ℚ) ^ (e + 1 - 5) ≤ 10 ^ (e' - 5) :=
      zpow_le_zpow_right₀ (by norm_num) (by omega)
    calc (n : ℚ) * 10 ^ (e - 5)
        ≤ 1000000 * 10 ^ (e - 5) := mul_le_mul_of_nonneg_right hmost hunit.le
      _ = 100000 * 10 ^ (e + 1 - 5) := (carry_eq e).symm
      _ ≤ 100000 * 10 ^ (e' - 5) := mul_le_mul_of_nonneg_left hstep (by norm_num)
      _ ≤ n' * 10 ^ (e' - 5) := mul_le_mul_of_nonneg_right hleast hunit'.le
  · -- In one decade the unit is the same.
    have hscaled : q * 10 ^ (5 - e) ≤ q' * 10 ^ (5 - e) :=
      mul_le_mul_of_nonneg_right hle (by positivity)
    have hcount : (n : ℚ) ≤ n' := by exact_mod_cast hn.mono hn' hscaled
    exact mul_le_mul_of_nonneg_right hcount hunit.le

end SixDigits

/-- The number `r` is `q`, rounded to six significant digits. -/
inductive Rounded : ℚ → ℚ → Prop where
  | zero : Rounded 0 0
  | positive {q : ℚ} {d : ℕ} {X : ℤ} : SixDigits q d X → Rounded q (d * 10 ^ (X - 5))
  | negative {q : ℚ} {d : ℕ} {X : ℤ} : SixDigits (-q) d X → Rounded q (-(d * 10 ^ (X - 5)))

/-- **Rounding keeps the order**, also across zero. -/
theorem Rounded.mono {q q' r r' : ℚ} (h : Rounded q r) (h' : Rounded q' r') (hle : q ≤ q') :
    r ≤ r' := by
  cases h with
  | zero =>
    cases h' with
    | zero => exact le_rfl
    | positive hdigits' => exact hdigits'.value_pos.le
    | negative hdigits' =>
      have := hdigits'.pos
      linarith
  | positive hdigits =>
    have hq := hdigits.pos
    cases h' with
    | zero => linarith
    | positive hdigits' => exact hdigits.mono hdigits' hle
    | negative hdigits' =>
      have := hdigits'.pos
      linarith
  | negative hdigits =>
    have hr := hdigits.value_pos
    cases h' with
    | zero => linarith
    | positive hdigits' =>
      have := hdigits'.value_pos
      linarith
    | negative hdigits' => exact neg_le_neg (hdigits'.mono hdigits (neg_le_neg hle))

/-! ## The order of words -/

namespace Binary64

/-- The magnitude of a word without its sign bit. -/
def magnitudeOf (u : ℕ) : ℚ :=
  if u / leadingBit = 0 then ((u % leadingBit : ℕ) : ℚ) * 2 ^ (-1074 : ℤ)
  else ((leadingBit + u % leadingBit : ℕ) : ℚ) * 2 ^ (((u / leadingBit : ℕ) : ℤ) - 1075)

/-- A value is its magnitude with its sign. -/
theorem value_eq_magnitudeOf (x : Binary64) :
    x.value = (if x.isNegative then -1 else 1) * magnitudeOf x.unsigned := rfl

/-- **Words of one sign are in the order of their magnitudes**: one more unit in the last place
is more, and after the last fraction the next exponent goes on where it ends. -/
theorem strictMono_magnitudeOf : StrictMono magnitudeOf := by
  apply strictMono_nat_of_lt_succ
  intro u
  have hnext : ((u + 1) / leadingBit = u / leadingBit ∧
        (u + 1) % leadingBit = u % leadingBit + 1) ∨
      ((u + 1) / leadingBit = u / leadingBit + 1 ∧ (u + 1) % leadingBit = 0 ∧
        u % leadingBit + 1 = leadingBit) := by
    unfold leadingBit
    omega
  unfold magnitudeOf
  generalize u / leadingBit = e at hnext ⊢
  generalize u % leadingBit = f at hnext ⊢
  rcases hnext with ⟨he, hf⟩ | ⟨he, hf, hlast⟩
  · rw [he, hf]
    split
    · refine mul_lt_mul_of_pos_right ?_ (by positivity)
      exact_mod_cast Nat.lt_succ_self f
    · refine mul_lt_mul_of_pos_right ?_ (by positivity)
      exact_mod_cast Nat.lt_succ_self (leadingBit + f)
  · have hbelow : (f : ℚ) < leadingBit := by exact_mod_cast (by omega : f < leadingBit)
    rw [he, hf, if_neg (Nat.succ_ne_zero e), Nat.add_zero]
    split
    · next hleast =>
      rw [hleast]
      exact mul_lt_mul_of_pos_right hbelow (by positivity)
    · have hdouble : (2 : ℚ) ^ (((e + 1 : ℕ) : ℤ) - 1075) = 2 * 2 ^ ((e : ℤ) - 1075) := by
        rw [Nat.cast_succ, add_sub_right_comm, zpow_add_one₀ (by norm_num), mul_comm]
      rw [hdouble, mul_left_comm, ← mul_assoc]
      refine mul_lt_mul_of_pos_right ?_ (by positivity)
      push_cast
      linarith

theorem magnitudeOf_zero : magnitudeOf 0 = 0 := by
  rw [magnitudeOf, if_pos (Nat.zero_div _), Nat.zero_mod, Nat.cast_zero, zero_mul]

/-- Magnitudes are not negative. -/
theorem magnitudeOf_nonneg (u : ℕ) : 0 ≤ magnitudeOf u := by
  rw [← magnitudeOf_zero]
  exact strictMono_magnitudeOf.monotone (Nat.zero_le u)

/-- The integer that orders the numbers. -/
def key (x : Binary64) : ℤ := if x.isNegative then -x.unsigned else x.unsigned

/-- **Values are in the order of the keys** of their words. -/
theorem value_le_iff (x y : Binary64) : x.value ≤ y.value ↔ x.key ≤ y.key := by
  have hx := magnitudeOf_nonneg x.unsigned
  have hy := magnitudeOf_nonneg y.unsigned
  rw [value_eq_magnitudeOf, value_eq_magnitudeOf, key, key]
  by_cases hxneg : x.isNegative = true
  · by_cases hyneg : y.isNegative = true
    · rw [if_pos hxneg, if_pos hyneg, if_pos hxneg, if_pos hyneg, neg_one_mul, neg_one_mul,
        neg_le_neg_iff, neg_le_neg_iff, strictMono_magnitudeOf.le_iff_le, Nat.cast_le]
    · rw [if_pos hxneg, if_neg hyneg, if_pos hxneg, if_neg hyneg]
      exact iff_of_true (by linarith) (by omega)
  · by_cases hyneg : y.isNegative = true
    · -- Only zeros have a negative one above them that is not below.
      rw [if_neg hxneg, if_pos hyneg, if_neg hxneg, if_pos hyneg, one_mul, neg_one_mul]
      constructor
      · intro hle
        have hzero : x.unsigned ≤ 0 := by
          rw [← strictMono_magnitudeOf.le_iff_le, magnitudeOf_zero]
          linarith
        have hzero' : y.unsigned ≤ 0 := by
          rw [← strictMono_magnitudeOf.le_iff_le, magnitudeOf_zero]
          linarith
        omega
      · intro hle
        have hzero : x.unsigned = 0 := by omega
        have hzero' : y.unsigned = 0 := by omega
        rw [hzero, hzero', magnitudeOf_zero, neg_zero]
    · rw [if_neg hxneg, if_neg hyneg, if_neg hxneg, if_neg hyneg, one_mul, one_mul,
        strictMono_magnitudeOf.le_iff_le, Nat.cast_le]

/-- A number has a key. -/
theorem key?_eq {x : Binary64} (h : x.isNaN = false) : x.key? = some x.key := by
  rw [key?, h, if_neg Bool.false_ne_true, key]
  split
  · rfl
  · rfl

/-- What is finite is a number. -/
theorem isNaN_eq_false {x : Binary64} (h : x.IsFinite) : x.isNaN = false := by
  rw [isNaN, decide_eq_false h, Bool.false_and]

/-- **Finite numbers compare as their values do.** -/
theorem lessEqual_iff {x y : Binary64} (hx : x.IsFinite) (hy : y.IsFinite) :
    x.lessEqual y = true ↔ x.value ≤ y.value := by
  have hcompare : x.compare? y = some (compare x.key y.key) := by
    rw [compare?, key?_eq (isNaN_eq_false hx), key?_eq (isNaN_eq_false hy)]
    rfl
  rw [value_le_iff, lessEqual, less, equal, hcompare, Bool.or_eq_true, decide_eq_true_eq,
    decide_eq_true_eq, Option.some_inj, Option.some_inj, Int.compare_eq_lt, Int.compare_eq_eq]
  exact Int.le_iff_lt_or_eq.symm

/-! ## What is read from a text -/

/-- What the text of a number says behind its sign. -/
def unsignedText (x : Binary64) : String :=
  if x.isInfinite then "inf" else if x.isZero then "0" else general x.magnitude

/-- The text of a number is a sign, if it is negative, and the text of its magnitude. -/
theorem text_eq {x : Binary64} (h : x.isNaN = false) :
    x.text = (if x.isNegative then "-" else "") ++ x.unsignedText := by
  rw [text, h]
  rfl

/-- Only the two zeros have the value zero. -/
theorem isZero_of_value_eq_zero {x : Binary64} (hvalue : x.value = 0) : x.isZero = true := by
  have hmagnitude : magnitudeOf x.unsigned = 0 := by
    rw [value_eq_magnitudeOf] at hvalue
    split at hvalue
    · linarith
    · linarith
  have hnone : x.unsigned ≤ 0 := by
    rw [← strictMono_magnitudeOf.le_iff_le, magnitudeOf_zero, hmagnitude]
  rw [isZero, decide_eq_true_eq]
  omega

/-- Both zeros have a text that is read as zero. -/
theorem readDecimal?_text_of_zero {x : Binary64} (h : x.IsFinite) (hzero : x.isZero = true) :
    readDecimal? x.text.toList = some 0 := by
  have hbounded : x.isInfinite = false := by
    rw [isInfinite, decide_eq_false h, Bool.false_and]
  have hspells : Spells ['0'] 0 :=
    ⟨0, [], IsFraction.nil, rfl, by rw [fractionValue_nil, Nat.cast_zero, add_zero]⟩
  have hnone : readExponent? [] = some 0 := rfl
  have hread : readUnsigned? ['0'] = some 0 := by
    have hread := readUnsigned?_of_spells hspells hnone
    rwa [zero_mul] at hread
  have htext : x.unsignedText = "0" := by
    rw [unsignedText, hbounded, hzero]
    rfl
  rw [text_eq (isNaN_eq_false h), htext, String.toList_append]
  split
  · show (readUnsigned? ['0']).map _ = some 0
    rw [hread, Option.map_some, neg_zero]
  · exact hread

/-- **The text of a number is read as its rounded value.** -/
theorem exists_readDecimal? {x : Binary64} (h : x.IsFinite) :
    ∃ r, readDecimal? x.text.toList = some r ∧ Rounded x.value r := by
  by_cases hvalue : x.value = 0
  · refine ⟨0, readDecimal?_text_of_zero h (isZero_of_value_eq_zero hvalue), ?_⟩
    rw [hvalue]
    exact .zero
  · have hnum := num_magnitude_pos hvalue
    have hden := x.den_magnitude_pos
    have hshows := toList_general hnum hden x.value
    have hdigits := Scientific.sixDigits_ofRatio hnum hden
    rw [← abs_value] at hdigits
    rw [← toList_text h hvalue] at hshows
    refine ⟨_, readDecimal?_of_shows hshows, ?_⟩
    by_cases hneg : x.value < 0
    · rw [abs_of_neg hneg] at hdigits
      rw [if_pos hneg, neg_one_mul]
      exact .negative hdigits
    · rw [abs_of_nonneg (not_lt.mp hneg)] at hdigits
      rw [if_neg hneg, one_mul]
      exact .positive hdigits

/-! ## The sign -/

/-- The number with the other sign bit. -/
def negated (x : Binary64) : Binary64 :=
  ⟨.ofNat (if x.isNegative then x.unsigned else signBit + x.unsigned)⟩

/-- A word with its sign turned has the same bits but for the highest. -/
theorem toNat_negated (x : Binary64) :
    x.negated.bits.toNat = if x.isNegative then x.unsigned else signBit + x.unsigned := by
  have hbelow : x.unsigned < signBit := Nat.mod_lt _ (by decide)
  rw [negated, UInt64.toNat_ofNat']
  unfold signBit at hbelow ⊢
  split <;> omega

/-- Nothing but the sign bit is changed. -/
theorem unsigned_negated (x : Binary64) : x.negated.unsigned = x.unsigned := by
  have hbelow : x.unsigned < signBit := Nat.mod_lt _ (by decide)
  rw [unsigned, toNat_negated]
  unfold signBit at hbelow ⊢
  split <;> omega

/-- Turning the sign turns it. -/
theorem isNegative_negated (x : Binary64) : x.negated.isNegative = !x.isNegative := by
  have hbelow : x.unsigned < signBit := Nat.mod_lt _ (by decide)
  rw [isNegative, toNat_negated]
  by_cases hneg : x.isNegative = true
  · rw [if_pos hneg, hneg]
    exact decide_eq_false (Nat.not_le.mpr hbelow)
  · rw [if_neg hneg, decide_eq_true (Nat.le_add_right signBit _)]
    rw [Bool.not_eq_true] at hneg
    rw [hneg]
    rfl

/-- Turning the sign leaves the exponent. -/
theorem exponentField_negated (x : Binary64) : x.negated.exponentField = x.exponentField := by
  rw [exponentField, exponentField, unsigned_negated]

/-- Turning the sign leaves the fraction. -/
theorem fraction_negated (x : Binary64) : x.negated.fraction = x.fraction := by
  rw [fraction, fraction, unsigned_negated]

/-- Turning the sign makes no number of what is none, and the other way round. -/
theorem isNaN_negated (x : Binary64) : x.negated.isNaN = x.isNaN := by
  rw [isNaN, isNaN, exponentField_negated, fraction_negated]

/-- Turning the sign leaves the text of the magnitude. -/
theorem unsignedText_negated (x : Binary64) : x.negated.unsignedText = x.unsignedText := by
  rw [unsignedText, unsignedText, isInfinite, isInfinite, isZero, isZero, magnitude, magnitude,
    unsigned_negated, exponentField_negated, fraction_negated]

/-- **The texts of a number and its negation differ in a minus sign.** -/
theorem text_negated {x : Binary64} (h : x.isNaN = false) :
    if x.isNegative then x.text = "-" ++ x.negated.text else x.negated.text = "-" ++ x.text := by
  have hnegated : x.negated.isNaN = false := (isNaN_negated x).trans h
  rw [text_eq h, text_eq hnegated, unsignedText_negated, isNegative_negated]
  by_cases hneg : x.isNegative = true
  · simp [hneg]
  · rw [Bool.not_eq_true] at hneg
    simp [hneg]

/-! ## Two numbers -/

/-- **Texts keep the order and the sign of numbers.** Of two finite numbers in order, each is
read from its text as a number, and these are in order, too, in whatever notations and decades
they were written. The texts of a number and the one with the other sign bit are the same but
for a minus sign in front of the negative one, also of zeros and infinities. -/
theorem text_order :
    (∀ x y : Binary64, x.IsFinite → y.IsFinite → x.lessEqual y = true →
      ∃ q r, readDecimal? x.text.toList = some q ∧ readDecimal? y.text.toList = some r ∧ q ≤ r) ∧
    ∀ x : Binary64, x.isNaN = false →
      if x.isNegative then x.text = "-" ++ x.negated.text
      else x.negated.text = "-" ++ x.text := by
  refine ⟨fun x y hx hy hle => ?_, fun x hx => text_negated hx⟩
  obtain ⟨q, hq, hroundedx⟩ := exists_readDecimal? hx
  obtain ⟨r, hr, hroundedy⟩ := exists_readDecimal? hy
  exact ⟨q, r, hq, hr, hroundedx.mono hroundedy ((lessEqual_iff hx hy).mp hle)⟩

/-- A number that is written around a point and one that carries into an exponent, with the
negation of the one and of negative zero. -/
theorem text_order_carry :
    let x : Binary64 := ⟨0x412E847E00000000⟩
    let y : Binary64 := ⟨0x412E847F00000000⟩
    let z : Binary64 := ⟨0x8000000000000000⟩
    x.IsFinite ∧ y.IsFinite ∧ x.lessEqual y = true ∧ x.isNaN = false ∧ z.isNaN = false ∧
      x.text = "999999" ∧ y.text = "1e+06" ∧
      (∃ q r, readDecimal? x.text.toList = some q ∧ readDecimal? y.text.toList = some r ∧ q ≤ r) ∧
      x.negated.text = "-" ++ x.text ∧ z.text = "-" ++ z.negated.text := by
  intro x y z
  have hx : x.IsFinite := by decide +kernel
  have hy : y.IsFinite := by decide +kernel
  have hle : x.lessEqual y = true := by decide +kernel
  have hxnumber : x.isNaN = false := by decide +kernel
  have hznumber : z.isNaN = false := by decide +kernel
  have hxsign : ¬ x.isNegative = true := by decide +kernel
  have hzsign : z.isNegative = true := by decide +kernel
  obtain ⟨horder, hsign⟩ := text_order
  have hxnegated := hsign x hxnumber
  have hznegated := hsign z hznumber
  rw [if_neg hxsign] at hxnegated
  rw [if_pos hzsign] at hznegated
  exact ⟨hx, hy, hle, hxnumber, hznumber, by decide +kernel, by decide +kernel,
    horder x y hx hy hle, hxnegated, hznegated⟩

end Binary64

end ScriptFront.Number
