/-
Decimal numbers as they are read.

A decimal number is digits, and behind a point there may be more of them, and behind an `e` an
exponent with its sign. A minus sign may stand before it all. `readDecimal?` says which
rational this is, whatever has written it.

The texts of numbers are read as what was rounded: around a point the digits stand where
they count (`readUnsigned?_of_spells`), and otherwise the exponent puts them there. So both
notations of the same digits are read alike (`readDecimal?_of_shows`).
-/
import ScriptFront.Proofs.NumberText

set_option autoImplicit false

namespace ScriptFront.Number

/-! ## The reader -/

/-- The natural number that digits stand for, if there are digits and nothing else. -/
def readDigits? (s : List Char) : Option ℕ :=
  if s ≠ [] ∧ s.all Char.isDigit then some (Nat.ofDigitChars 10 s 0) else none

/-- The exponent behind an `e`, which is zero where the text ends before that. -/
def readExponent? : List Char → Option ℤ
  | [] => some 0
  | 'e' :: '+' :: s => (readDigits? s).map fun n => n
  | 'e' :: '-' :: s => (readDigits? s).map fun n => -n
  | _ => none

/-- The value of the digits behind a point, and what follows them. -/
def splitFraction : List Char → ℚ × List Char
  | '.' :: s => (fractionValue (s.takeWhile Char.isDigit), s.dropWhile Char.isDigit)
  | s => (0, s)

def readUnsigned? (s : List Char) : Option ℚ := do
  let whole ← readDigits? (s.takeWhile Char.isDigit)
  let fraction := splitFraction (s.dropWhile Char.isDigit)
  let exponent ← readExponent? fraction.2
  return (whole + fraction.1) * 10 ^ exponent

/-- The number that a text stands for, if it is one. -/
def readDecimal? : List Char → Option ℚ
  | '-' :: s => (readUnsigned? s).map fun q => -q
  | s => readUnsigned? s

/-! ## Digits and exponents -/

theorem readDigits?_of_forall {s : List Char} (hne : s ≠ []) (hdigits : ∀ c ∈ s, c.isDigit = true) :
    readDigits? s = some (Nat.ofDigitChars 10 s 0) := by
  rw [readDigits?, if_pos ⟨hne, List.all_eq_true.mpr hdigits⟩]

/-- Decimal digits are read back to their number. -/
theorem readDigits?_toDigits (n : ℕ) : readDigits? (Nat.toDigits 10 n) = some n := by
  rw [readDigits?_of_forall Nat.toDigits_ne_nil isDigit_of_mem_toDigits,
    Nat.ofDigitChars_ten_toDigits]

/-- A zero in front makes no difference. -/
theorem readDigits?_zero_toDigits (n : ℕ) : readDigits? ('0' :: Nat.toDigits 10 n) = some n := by
  have hdigits : ∀ c ∈ '0' :: Nat.toDigits 10 n, c.isDigit = true :=
    List.forall_mem_cons.mpr ⟨rfl, isDigit_of_mem_toDigits⟩
  rw [readDigits?_of_forall (List.cons_ne_nil _ _) hdigits, Nat.ofDigitChars_cons]
  exact congrArg some Nat.ofDigitChars_ten_toDigits

/-- An exponent is read as it was written. -/
theorem readExponent?_exponentForm (X : ℤ) : readExponent? ('e' :: exponentForm X) = some X := by
  have hdigits : readDigits? ((if X.natAbs < 10 then ['0'] else []) ++ Nat.toDigits 10 X.natAbs) =
      some X.natAbs := by
    split
    · exact readDigits?_zero_toDigits _
    · exact readDigits?_toDigits _
  rw [exponentForm]
  by_cases hneg : X < 0
  · rw [if_pos hneg, readExponent?, hdigits]
    show some (-(X.natAbs : ℤ)) = some X
    congr 1
    omega
  · rw [if_neg hneg, readExponent?, hdigits]
    show some (X.natAbs : ℤ) = some X
    congr 1
    omega

/-! ## Numbers -/

/-- An exponent begins with an `e`, unless there is none. -/
theorem head?_of_readExponent? {s : List Char} {X : ℤ} (h : readExponent? s = some X) :
    ∀ c ∈ s.head?, c = 'e' := by
  intro c hc
  unfold readExponent? at h
  split at h
  · contradiction
  · exact (Option.some.inj hc).symm
  · exact (Option.some.inj hc).symm
  · contradiction

/-- The point and the digits behind it come off, if there are any. -/
theorem splitFraction_behindPoint {f rest : List Char} (hf : ∀ c ∈ f, c.isDigit = true)
    (hrest : ∀ c ∈ rest.head?, c = 'e') :
    splitFraction (behindPoint f ++ rest) = (fractionValue f, rest) := by
  by_cases hnone : f = []
  · subst hnone
    rw [behindPoint, if_pos rfl, List.nil_append, fractionValue_nil]
    cases rest with
    | nil => rfl
    | cons c rest =>
      obtain rfl := hrest c rfl
      rfl
  · have hstop : ∀ c ∈ rest.head?, c.isDigit = false := by
      intro c hc
      rw [hrest c hc]
      rfl
    obtain ⟨htake, hdrop⟩ := span_digits hf hstop
    rw [behindPoint, if_neg hnone, List.cons_append, splitFraction, htake, hdrop]

/-- **A number around a point is read as what it spells**, times the power of ten that
follows. -/
theorem readUnsigned?_of_spells {w rest : List Char} {q : ℚ} {X : ℤ} (hw : Spells w q)
    (hrest : readExponent? rest = some X) : readUnsigned? (w ++ rest) = some (q * 10 ^ X) := by
  obtain ⟨n, f, hf, rfl, rfl⟩ := hw
  have hhead := head?_of_readExponent? hrest
  -- Neither a point nor an `e` is a digit.
  have hstop : ∀ c ∈ (behindPoint f ++ rest).head?, c.isDigit = false := by
    intro c hc
    by_cases hnone : f = []
    · rw [behindPoint, if_pos hnone, List.nil_append] at hc
      rw [hhead c hc]
      rfl
    · rw [behindPoint, if_neg hnone] at hc
      rw [← Option.some.inj hc]
      rfl
  obtain ⟨htake, hdrop⟩ := span_digits isDigit_of_mem_toDigits hstop
  rw [readUnsigned?, List.append_assoc, htake, hdrop, readDigits?_toDigits,
    splitFraction_behindPoint hf.1 hhead]
  dsimp only [bind, Option.bind, pure]
  rw [hrest]

/-- A number that is spelled out begins with a digit, so it has no sign. -/
theorem readDecimal?_of_spells {w : List Char} {q : ℚ} (hw : Spells w q) (rest : List Char) :
    readDecimal? (w ++ rest) = readUnsigned? (w ++ rest) := by
  obtain ⟨n, f, -, rfl, -⟩ := hw
  obtain ⟨c, t, hcons, hc⟩ := exists_cons_toString n
  rw [toList_toString] at hcons
  have hsign : c ≠ '-' := by
    rintro rfl
    contradiction
  rw [hcons]
  unfold readDecimal?
  split
  · next s hs => exact absurd (List.cons.inj hs).1 hsign
  · rfl

/-- A text whose number is read without a sign is read with the sign that stands before it. -/
theorem readDecimal?_signText {q r : ℚ} {s : List Char} (hs : readUnsigned? s = some r)
    (hsame : readDecimal? s = readUnsigned? s) :
    readDecimal? (signText q ++ s) = some ((if q < 0 then -1 else 1) * r) := by
  rw [signText]
  by_cases hneg : q < 0
  · rw [if_pos hneg, if_pos hneg, neg_one_mul]
    show (readUnsigned? s).map _ = _
    rw [hs]
    rfl
  · rw [if_neg hneg, if_neg hneg, one_mul, List.nil_append, hsame, hs]

/-- **Both notations are read as the rounded number**, with the sign it was given. -/
theorem readDecimal?_of_shows {q : ℚ} {d : ℕ} {X : ℤ} {text : List Char} (h : Shows q d X text) :
    readDecimal? text = some ((if q < 0 then -1 else 1) * ((d : ℚ) * 10 ^ (X - 5))) := by
  cases h with
  | @plain w _ _ hw =>
    have hnone : readExponent? [] = some 0 := rfl
    have hread := readUnsigned?_of_spells hw hnone
    have hsame := readDecimal?_of_spells hw []
    rw [zpow_zero, mul_one, List.append_nil] at hread
    rw [List.append_nil] at hsame
    exact readDecimal?_signText hread hsame
  | @scientific w _ hw =>
    have hread := readUnsigned?_of_spells hw (readExponent?_exponentForm X)
    have hvalue : (d : ℚ) / 10 ^ 5 * 10 ^ X = d * 10 ^ (X - 5) := by
      rw [zpow_sub₀ (by norm_num), mul_div_assoc', div_mul_eq_mul_div]
      norm_cast
    rw [hvalue] at hread
    exact readDecimal?_signText hread (readDecimal?_of_spells hw _)

end ScriptFront.Number
