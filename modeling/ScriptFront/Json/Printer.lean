/-
Writing JSON.

There are two layouts. The compact one has no blanks; the tall one puts every
item on a line of its own, two blanks further in than what it belongs to, and
leaves empty containers closed up. Strings are escaped in the same way in both:
a quote, a backslash and the characters below the blank are escaped, all others
stand as they are.
-/
import ScriptFront.Json.Basic
import ScriptFront.Text.Field
import ScriptFront.Text.Hex

set_option autoImplicit false

namespace ScriptFront.Json

/-! ## Strings and numerals -/

/-- How a character is written inside a string. -/
def escape (c : Char) : List Char :=
  match c with
  | '"' => ['\\', '"']
  | '\\' => ['\\', '\\']
  | '\x08' => ['\\', 'b']
  | '\t' => ['\\', 't']
  | '\n' => ['\\', 'n']
  | '\x0c' => ['\\', 'f']
  | '\r' => ['\\', 'r']
  | c =>
    if c < ' ' then
      ['\\', 'u', '0', '0', Text.hexDigit (c.toNat / 16), Text.hexDigit (c.toNat % 16)]
    else [c]

/-- The four hexadecimal digits of a code unit. -/
def unitDigits (n : Nat) : List Char :=
  [n / 4096, n / 256 % 16, n / 16 % 16, n % 16].map Text.hexDigit

/-- How an item of a string is written. -/
def Piece.write : Piece → List Char
  | .char c => escape c
  | .unit n => '\\' :: 'u' :: unitDigits n

/-- A string between its quotes. -/
def quote (s : List Piece) : String :=
  String.ofList ('"' :: s.flatMap Piece.write ++ ['"'])

/-- A numeral as it is written. -/
def Numeral.write (n : Numeral) : String :=
  (if n.negative then "-" else "") ++ toString n.whole
    ++ String.ofList n.fraction ++ String.ofList n.exponent

/-! ## Layouts -/

/-- A member's value is smaller than the members it is one of. -/
theorem sizeOf_snd_lt {m : List Piece × Json} {members : List (List Piece × Json)}
    (h : m ∈ members) : sizeOf m.2 < sizeOf members := by
  have := List.sizeOf_lt_of_mem h
  cases m
  simp only [Prod.mk.sizeOf_spec] at this
  simp only
  omega

/-- A value without blanks. -/
def compact : Json → String
  | null => "null"
  | bool b => if b then "true" else "false"
  | number n => n.write
  | string s => quote s
  | array items => "[" ++ ",".intercalate (items.map fun item => compact item) ++ "]"
  | object members =>
    "\x7b" ++ ",".intercalate (members.map fun member => quote member.1 ++ ":" ++ compact member.2)
      ++ "\x7d"
termination_by j => sizeOf j
decreasing_by
  · have := List.sizeOf_lt_of_mem ‹_›
    simp only [array.sizeOf_spec]
    omega
  · have := sizeOf_snd_lt ‹_›
    simp only [object.sizeOf_spec]
    omega

/-- The start of a line that stands `depth` steps in. -/
def newline (depth : Nat) : String := "\n" ++ Text.replicate (2 * depth) ' '

/-- The items of a container, each on a line of its own one step further in
than the container. -/
def stacked (depth : Nat) (opening closing : String) (items : List String) : String :=
  if items.isEmpty then opening ++ closing
  else
    opening ++ newline (depth + 1) ++ ("," ++ newline (depth + 1)).intercalate items
      ++ newline depth ++ closing

/-- A value with every item on a line of its own, where the value itself starts
`depth` steps in. -/
def tall (depth : Nat) : Json → String
  | array items => stacked depth "[" "]" (items.map fun item => tall (depth + 1) item)
  | object members =>
    stacked depth "\x7b" "\x7d"
      (members.map fun member => quote member.1 ++ ": " ++ tall (depth + 1) member.2)
  | null => "null"
  | bool b => if b then "true" else "false"
  | number n => n.write
  | string s => quote s
termination_by j => sizeOf j
decreasing_by
  · have := List.sizeOf_lt_of_mem ‹_›
    simp only [array.sizeOf_spec]
    omega
  · have := sizeOf_snd_lt ‹_›
    simp only [object.sizeOf_spec]
    omega

end ScriptFront.Json
