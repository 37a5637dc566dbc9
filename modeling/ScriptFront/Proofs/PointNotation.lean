/-
Numbers written around a point.

A text spells a number if it is the digits of a whole number and, unless there are none, a
point and the digits of a fraction that do not end in zero (`Spells`). A number is spelled
in one way at most (`Spells.unique`): its whole part gives the digits before the point, and
a fraction gives its digits one after another, each as the whole part of ten times what is
left, until nothing is left.

`pointed` fills the digits behind the point up to a number of places and takes the zeros at
their end away again; neither changes what they stand for (`spells_pointed`).
-/
import Mathlib.Algebra.Order.Field.Rat
import Mathlib.Data.Nat.Cast.Order.Ring
import Mathlib.Tactic.FieldSimp
import Mathlib.Tactic.Linarith
import Mathlib.Tactic.NormNum
import Mathlib.Tactic.Positivity
import Mathlib.Tactic.Ring
import ScriptFront.Number.General
import ScriptFront.Proofs.Decimal

set_option autoImplicit false

namespace ScriptFront.Number

/-! ## Digits behind a point -/

/-- The number that digits behind a point stand for. -/
def fractionValue (f : List Char) : ℚ := Nat.ofDigitChars 10 f 0 / 10 ^ f.length

theorem fractionValue_nil : fractionValue [] = 0 := by
  rw [fractionValue, Nat.ofDigitChars_nil, Nat.cast_zero, zero_div]

/-- The first digit counts tenths, and the others a tenth of what they stand for alone. -/
theorem fractionValue_cons (c : Char) (f : List Char) :
    fractionValue (c :: f) = ((c.toNat - '0'.toNat : ℕ) + fractionValue f) / 10 := by
  rw [fractionValue, fractionValue, Nat.ofDigitChars_cons, Nat.ofDigitChars_eq_ofDigitChars_zero,
    Nat.mul_zero, Nat.zero_add, List.length_cons, pow_succ, Nat.cast_add, Nat.cast_mul,
    Nat.cast_pow, Nat.cast_ofNat]
  field_simp

theorem fractionValue_nonneg (f : List Char) : 0 ≤ fractionValue f := by
  unfold fractionValue
  positivity

/-- Zeros behind the last digit make no difference. -/
theorem fractionValue_append_zeros (f : List Char) (k : ℕ) :
    fractionValue (f ++ List.replicate k '0') = fractionValue f := by
  rw [fractionValue, fractionValue, Nat.ofDigitChars_append, Nat.ofDigitChars_replicate_zero,
    List.length_append, List.length_replicate, pow_add, Nat.cast_mul, Nat.cast_pow, Nat.cast_ofNat]
  field_simp

/-- Digits behind a point are worth less than one. -/
theorem fractionValue_lt_one {f : List Char} (h : ∀ c ∈ f, c.isDigit = true) :
    fractionValue f < 1 := by
  induction f with
  | nil =>
    rw [fractionValue_nil]
    norm_num
  | cons c f ih =>
    obtain ⟨hc, hf⟩ := List.forall_mem_cons.mp h
    have hdigit : ((c.toNat - '0'.toNat : ℕ) : ℚ) ≤ 9 := by
      have := (Char.isDigit_iff_toNat.mp hc).2
      exact_mod_cast Nat.sub_le_of_le_add this
    have hrest := ih hf
    rw [fractionValue_cons, div_lt_one (by norm_num)]
    linarith

/-- Of a whole number and less than one, the sum tells both. -/
theorem whole_unique {m n : ℕ} {x y : ℚ} (hx : 0 ≤ x) (hx' : x < 1) (hy : 0 ≤ y) (hy' : y < 1)
    (h : (m : ℚ) + x = n + y) : m = n ∧ x = y := by
  have hle : (m : ℚ) < n + 1 := by linarith
  have hge : (n : ℚ) < m + 1 := by linarith
  have hle' : m < n + 1 := by exact_mod_cast hle
  have hge' : n < m + 1 := by exact_mod_cast hge
  obtain rfl : m = n := by omega
  exact ⟨rfl, add_left_cancel h⟩

/-- Two digits of one value are one character. -/
theorem eq_of_digit_eq {c c' : Char} (hc : c.isDigit = true) (hc' : c'.isDigit = true)
    (h : c.toNat - '0'.toNat = c'.toNat - '0'.toNat) : c = c' := by
  have hlow := (Char.isDigit_iff_toNat.mp hc).1
  have hlow' := (Char.isDigit_iff_toNat.mp hc').1
  exact Char.toNat_inj.mp (by omega)

/-- Digits of a fraction that do not end in zero. -/
def IsFraction (f : List Char) : Prop := (∀ c ∈ f, c.isDigit = true) ∧ f.getLast? ≠ some '0'

namespace IsFraction

variable {c : Char} {f f' : List Char}

theorem nil : IsFraction [] := by
  refine ⟨?_, ?_⟩
  · intro c hc
    exact absurd hc List.not_mem_nil
  · intro hlast
    contradiction

theorem tail (h : IsFraction (c :: f)) : IsFraction f := by
  refine ⟨(List.forall_mem_cons.mp h.1).2, ?_⟩
  cases f with
  | nil => nofun
  | cons a f => exact List.getLast?_cons_cons ▸ h.2

/-- Nothing but no digits stands for zero: the last digit would be one. -/
theorem eq_nil (h : IsFraction f) (hzero : fractionValue f = 0) : f = [] := by
  induction f with
  | nil => rfl
  | cons c f ih =>
    have hnonneg := fractionValue_nonneg f
    have hdigit : (0 : ℚ) ≤ (c.toNat - '0'.toNat : ℕ) := Nat.cast_nonneg _
    rw [fractionValue_cons] at hzero
    have hrest : fractionValue f = 0 := by linarith
    have hfirst : ((c.toNat - '0'.toNat : ℕ) : ℚ) = 0 := by linarith
    have hc : c = '0' := eq_of_digit_eq (h.1 c List.mem_cons_self) rfl (Nat.cast_eq_zero.mp hfirst)
    subst hc
    rw [ih h.tail hrest] at h
    exact absurd rfl h.2

/-- **A number below one is written behind a point in one way.** -/
theorem unique (h : IsFraction f) (h' : IsFraction f')
    (hsame : fractionValue f = fractionValue f') : f = f' := by
  induction f generalizing f' with
  | nil =>
    rw [fractionValue_nil] at hsame
    exact (h'.eq_nil hsame.symm).symm
  | cons c f ih =>
    cases f' with
    | nil =>
      rw [fractionValue_nil] at hsame
      exact h.eq_nil hsame
    | cons c' f' =>
      rw [fractionValue_cons, fractionValue_cons, div_left_inj' (by norm_num)] at hsame
      obtain ⟨hdigit, hrest⟩ := whole_unique (fractionValue_nonneg f)
        (fractionValue_lt_one h.tail.1) (fractionValue_nonneg f')
        (fractionValue_lt_one h'.tail.1) hsame
      rw [eq_of_digit_eq (h.1 c List.mem_cons_self) (h'.1 c' List.mem_cons_self) hdigit,
        ih h.tail h'.tail hrest]

end IsFraction

/-! ## Numbers with a point -/

/-- A fraction with the point in front of it, if it has a digit. -/
def behindPoint (f : List Char) : List Char := if f = [] then [] else '.' :: f

/-- The text is the number `q` without needless digits: a whole number, and behind a point
a fraction that does not end in zero, if there is a fraction. -/
def Spells (w : List Char) (q : ℚ) : Prop :=
  ∃ n f, IsFraction f ∧ w = Nat.toDigits 10 n ++ behindPoint f ∧ q = n + fractionValue f

/-- **A number is spelled in one way at most.** -/
theorem Spells.unique {w w' : List Char} {q : ℚ} (h : Spells w q) (h' : Spells w' q) : w = w' := by
  obtain ⟨n, f, hf, rfl, hq⟩ := h
  obtain ⟨n', f', hf', rfl, hq'⟩ := h'
  obtain ⟨rfl, hsame⟩ := whole_unique (fractionValue_nonneg f) (fractionValue_lt_one hf.1)
    (fractionValue_nonneg f') (fractionValue_lt_one hf'.1) (hq.symm.trans hq')
  rw [hf.unique hf' hsame]

/-! ## What is written -/

/-- What is dropped is zeros. -/
theorem exists_zeros (s : List Char) : ∃ k, s = dropTrailingZeros s ++ List.replicate k '0' := by
  have hzeros : s.reverse.takeWhile (· == '0') =
      List.replicate (s.reverse.takeWhile (· == '0')).length '0' := by
    rw [List.eq_replicate_iff]
    exact ⟨rfl, fun c hc => beq_iff_eq.mp (List.all_eq_true.mp List.all_takeWhile c hc)⟩
  refine ⟨(s.reverse.takeWhile (· == '0')).length, ?_⟩
  rw [dropTrailingZeros, ← List.reverse_replicate, ← hzeros, ← List.reverse_append,
    List.takeWhile_append_dropWhile, List.reverse_reverse]

/-- Digits without their trailing zeros are a fraction as it is written. -/
theorem isFraction_dropTrailingZeros {s : List Char} (h : ∀ c ∈ s, c.isDigit = true) :
    IsFraction (dropTrailingZeros s) := by
  obtain ⟨k, hk⟩ := exists_zeros s
  refine ⟨?_, ?_⟩
  · intro c hc
    refine h c ?_
    rw [hk]
    exact List.mem_append_left _ hc
  · rw [dropTrailingZeros, List.getLast?_reverse]
    intro hlast
    have hstop := List.head?_dropWhile_not (· == '0') s.reverse
    rw [hlast] at hstop
    exact absurd hstop (by decide)

/-- Trailing zeros behind a point are worth nothing. -/
theorem fractionValue_dropTrailingZeros (s : List Char) :
    fractionValue (dropTrailingZeros s) = fractionValue s := by
  obtain ⟨k, hk⟩ := exists_zeros s
  conv_rhs => rw [hk]
  rw [fractionValue_append_zeros]

/-- Zeros in front fill a number up to its places behind the point. -/
theorem fractionValue_zeroPadded {places m : ℕ} (h : m < 10 ^ places) :
    fractionValue (Text.zeroPadded places m).toList = (m : ℚ) / 10 ^ places := by
  have hvalue : Nat.ofDigitChars 10 (Text.zeroPadded places m).toList 0 = m := by
    rw [Text.toList_zeroPadded, Nat.ofDigitChars_append, Nat.ofDigitChars_replicate_zero,
      Nat.mul_zero, ofDigitChars_toString]
  rw [fractionValue, hvalue]
  cases places with
  | zero =>
    obtain rfl : m = 0 := Nat.lt_one_iff.mp h
    rw [Nat.cast_zero, zero_div, zero_div]
  | succ places =>
    have hshort : (toString m).length ≤ places + 1 := (Nat.length_repr_le_iff places.succ_pos).mpr h
    have hlength : (Text.zeroPadded (places + 1) m).toList.length = places + 1 := by
      rw [Text.toList_zeroPadded, List.length_append, List.length_replicate, String.length_toList]
      omega
    rw [hlength]

/-- A number with a point is its whole part and, behind the point, the digits that are not
trailing zeros. -/
theorem toList_pointed (n places : ℕ) :
    (pointed n places).toList = Nat.toDigits 10 (n / 10 ^ places) ++
      behindPoint (dropTrailingZeros (Text.zeroPadded places (n % 10 ^ places)).toList) := by
  have hunit : Nat.pow 10 places = 10 ^ places := rfl
  unfold pointed
  rw [hunit]
  dsimp only
  rw [String.toList_append, toList_toString]
  generalize dropTrailingZeros (Text.zeroPadded places (n % 10 ^ places)).toList = f
  cases f with
  | nil => rfl
  | cons c f => simp [behindPoint]

/-- **A number of units behind the point is spelled out.** -/
theorem spells_pointed (n places : ℕ) :
    Spells (pointed n places).toList ((n : ℚ) / 10 ^ places) := by
  have hunit : 0 < 10 ^ places := by positivity
  have hdigits : ∀ c ∈ (Text.zeroPadded places (n % 10 ^ places)).toList, c.isDigit = true :=
    isDigit_of_mem_zeroPadded places _
  refine ⟨n / 10 ^ places, _, isFraction_dropTrailingZeros hdigits, toList_pointed n places, ?_⟩
  have hsplit : (n : ℚ) = 10 ^ places * (n / 10 ^ places : ℕ) + (n % 10 ^ places : ℕ) := by
    exact_mod_cast (Nat.div_add_mod n (10 ^ places)).symm
  rw [fractionValue_dropTrailingZeros, fractionValue_zeroPadded (Nat.mod_lt n hunit)]
  conv_lhs => rw [hsplit]
  field_simp

end ScriptFront.Number
