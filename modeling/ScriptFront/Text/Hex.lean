/-
Hexadecimal digits.

Both directions for a single digit, and the two-digit form of a byte. Reading
takes either case; writing is told which one.
-/

set_option autoImplicit false

namespace ScriptFront.Text

/-- The digit of a number below sixteen, in small letters. -/
def hexDigit (n : Nat) : Char := Nat.digitChar n

/-- The digit of a number below sixteen, in capitals. -/
def hexDigitUpper (n : Nat) : Char := (Nat.digitChar n).toUpper

/-- The number a hexadecimal digit stands for. -/
def hexValue? (c : Char) : Option Nat :=
  if '0' ≤ c ∧ c ≤ '9' then some (c.toNat - '0'.toNat)
  else if 'a' ≤ c ∧ c ≤ 'f' then some (c.toNat - 'a'.toNat + 10)
  else if 'A' ≤ c ∧ c ≤ 'F' then some (c.toNat - 'A'.toNat + 10)
  else none

theorem hexValue?_hexDigit : ∀ n < 16, hexValue? (hexDigit n) = some n := by
  decide

theorem hexValue?_hexDigitUpper : ∀ n < 16, hexValue? (hexDigitUpper n) = some n := by
  decide

/-- A byte as two digits in capitals. -/
def hexByte (b : UInt8) : String :=
  String.ofList [hexDigitUpper (b.toNat / 16), hexDigitUpper (b.toNat % 16)]

end ScriptFront.Text
