/-
Natural numbers in base ten.

The library writes numbers with `toString`. What its readers rely on is collected
here: the text of a number consists of digits, at least one, it stands for the
number it was made from, and only zero begins with the digit zero. Digits are taken
off a text up to the first character that is none (`span_digits`).
-/
import Mathlib.Data.List.Basic
import ScriptFront.Text.Field

set_option autoImplicit false

namespace ScriptFront

/-- Numbers are written with their decimal digits. -/
theorem toList_toString (n : Nat) : (toString n).toList = Nat.toDigits 10 n := by
  rw [Nat.toString_eq_repr, Nat.toList_repr]

theorem isDigit_of_mem_toDigits {n : Nat} : ∀ c ∈ Nat.toDigits 10 n, c.isDigit = true := by
  intro c hc
  exact Nat.isDigit_of_mem_toDigits (by decide) (by decide) hc

theorem isDigit_of_mem_toString {n : Nat} : ∀ c ∈ (toString n).toList, c.isDigit = true := by
  rw [toList_toString]
  exact isDigit_of_mem_toDigits

theorem isDigit_of_mem_zeroPadded (width n : Nat) :
    ∀ c ∈ (Text.zeroPadded width n).toList, c.isDigit = true := by
  intro c hc
  rw [Text.toList_zeroPadded, List.mem_append] at hc
  rcases hc with hzero | hdigit
  · rw [List.eq_of_mem_replicate hzero]
    rfl
  · exact isDigit_of_mem_toString c hdigit

theorem newline_notMem_toString (n : Nat) : '\n' ∉ (toString n).toList := by
  intro hmem
  exact absurd (isDigit_of_mem_toString _ hmem) (by decide)

theorem newline_notMem_zeroPadded (width n : Nat) :
    '\n' ∉ (Text.zeroPadded width n).toList := by
  intro hmem
  exact absurd (isDigit_of_mem_zeroPadded width n _ hmem) (by decide)

/-- A number is written with at least one digit. -/
theorem exists_cons_toString (n : Nat) :
    ∃ c t, (toString n).toList = c :: t ∧ c.isDigit = true := by
  obtain ⟨c, t, hct⟩ := List.exists_cons_of_ne_nil (Nat.toDigits_ne_nil (n := n) (b := 10))
  rw [← toList_toString] at hct
  exact ⟨c, t, hct, isDigit_of_mem_toString c (hct ▸ List.mem_cons_self)⟩

/-- A number is read back from its digits. -/
theorem ofDigitChars_toString (n : Nat) : Nat.ofDigitChars 10 (toString n).toList 0 = n := by
  rw [toList_toString, Nat.ofDigitChars_ten_toDigits]

/-- A number that is written with a zero in front is zero. The induction drops the
last digit. -/
theorem eq_zero_of_head?_toString {n : Nat} (h : (toString n).toList.head? = some '0') :
    n = 0 := by
  rw [toList_toString] at h
  induction n using Nat.strongRecOn with
  | ind n ih =>
    rw [Nat.toDigits_eq_if (by decide)] at h
    split at h
    · next hsmall =>
      have hdigit : ∀ m < 10, Nat.digitChar m = '0' → m = 0 := by decide
      exact hdigit n hsmall (Option.some.inj h)
    · next hlarge =>
      rw [List.head?_append_of_ne_nil _ Nat.toDigits_ne_nil] at h
      have hshort := ih (n / 10) (by omega) h
      omega

/-- Digits are read up to the first character that is no digit. -/
theorem span_digits {ds u : List Char} (hds : ∀ c ∈ ds, c.isDigit = true)
    (hu : ∀ c ∈ u.head?, c.isDigit = false) :
    (ds ++ u).takeWhile Char.isDigit = ds ∧ (ds ++ u).dropWhile Char.isDigit = u := by
  rw [List.takeWhile_append_of_pos hds, List.dropWhile_append_of_pos hds]
  cases u with
  | nil => exact ⟨List.append_nil _, rfl⟩
  | cons c u =>
    have hc : ¬c.isDigit = true := Bool.eq_false_iff.mp (hu c rfl)
    rw [List.takeWhile_cons_of_neg hc, List.dropWhile_cons_of_neg hc]
    exact ⟨List.append_nil _, rfl⟩

end ScriptFront
