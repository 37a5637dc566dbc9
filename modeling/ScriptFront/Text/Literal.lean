/-
Texts shown between double quotes, on one line and without hidden characters.

A double quote and a backslash get a backslash in front. A tab, a line feed, a
carriage return and a null character have a letter of their own; any other
hidden character is shown by its number. Everything else stands for itself, a
single quote among it.
-/
import ScriptFront.Text.Hidden
import ScriptFront.Text.Hex

set_option autoImplicit false

namespace ScriptFront.Text

/-- A natural number in base sixteen, in small letters. -/
def hexadecimal (n : Nat) : String := String.ofList (Nat.toDigits 16 n)

/-- A character as it is shown between double quotes. -/
def shown (c : Char) : String :=
  if c = '\x00' then "\\0"
  else if c = '\t' then "\\t"
  else if c = '\n' then "\\n"
  else if c = '\r' then "\\r"
  else if c = '"' then "\\\""
  else if c = '\\' then "\\\\"
  else if isHidden c then "\\u\x7b" ++ hexadecimal c.toNat ++ "\x7d"
  else String.singleton c

/-- A text between double quotes. -/
def literal (s : String) : String :=
  "\"" ++ String.join (s.toList.map shown) ++ "\""

/-- A tab, both kinds of quote, a backslash, an escape character and an accent
that joins the letter before it. -/
example :
    literal "a\t\x27\"\\\x1bé\u0301" =
      "\"a\\t\x27\\\"\\\\\\u\x7b1b\x7dé\\u\x7b301\x7d\"" := by
  decide +kernel

end ScriptFront.Text
