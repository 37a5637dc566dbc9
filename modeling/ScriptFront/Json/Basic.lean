/-
JSON values as they are written.

The type keeps what a reader needs in order to refuse: a numeral keeps its sign
and the spelling of its fraction and exponent, since a whole number may be
asked for, and a string keeps the code units of its escapes, since a lone
surrogate is a well-formed string that stands for no text. `Piece.text?` says
which strings do stand for a text.
-/

set_option autoImplicit false

namespace ScriptFront

namespace Json

/-- One item of a string: a character, or a code unit written as an escape. -/
inductive Piece where
  -- A character, written out or by a short escape.
  | char (c : Char)
  -- A sixteen-bit code unit, written with four hexadecimal digits.
  | unit (n : Nat)
deriving DecidableEq, Repr

namespace Piece

/-- Whether a code unit is the first half of a surrogate pair. -/
def isHigh (n : Nat) : Bool := 0xD800 ≤ n && n < 0xDC00

/-- Whether a code unit is the second half of a surrogate pair. -/
def isLow (n : Nat) : Bool := 0xDC00 ≤ n && n < 0xE000

/-- The text that a string stands for. Two units that form a surrogate pair
stand for one character, and a half of a pair alone stands for none. -/
def text? : List Piece → Option (List Char)
  | [] => some []
  | char c :: rest => (c :: ·) <$> text? rest
  | unit h :: unit l :: rest =>
    if isHigh h then
      if isLow l then
        (Char.ofNat (0x10000 + (h - 0xD800) * 0x400 + (l - 0xDC00)) :: ·) <$> text? rest
      else none
    else if isLow h then none
    else (Char.ofNat h :: ·) <$> text? (unit l :: rest)
  | unit n :: rest =>
    if isHigh n || isLow n then none
    else (Char.ofNat n :: ·) <$> text? rest

/-- A string without escapes of code units stands for its characters. -/
theorem text?_map_char (s : List Char) : text? (s.map char) = some s := by
  induction s with
  | nil => rfl
  | cons c s ih => simp [text?, ih]

end Piece

/-- A numeral as it is written. -/
structure Numeral where
  negative : Bool := false
  -- The digits before any dot or exponent.
  whole : Nat
  -- The dot and the digits after it, or nothing.
  fraction : List Char := []
  -- The letter, sign and digits of the exponent, or nothing.
  exponent : List Char := []
deriving DecidableEq, Repr

/-- The natural number that a numeral spells plainly: without sign, fraction or
exponent. -/
def Numeral.nat? (n : Numeral) : Option Nat :=
  if n.negative = false ∧ n.fraction = [] ∧ n.exponent = [] then some n.whole else none

end Json

/-- A JSON value. -/
inductive Json where
  | null
  | bool (b : Bool)
  | number (n : Json.Numeral)
  | string (s : List Json.Piece)
  | array (items : List Json)
  -- Named values, in the order they are written.
  | object (members : List (List Json.Piece × Json))

namespace Json

/-- A natural number. -/
def nat (n : Nat) : Json := number { whole := n }

/-- A text. -/
def text (s : String) : Json := string (s.toList.map .char)

/-- Named values whose names are texts. -/
def record (members : List (String × Json)) : Json :=
  object (members.map fun (name, value) => (name.toList.map .char, value))

/-- The text that a string value stands for. -/
def text? : Json → Option String
  | string s => String.ofList <$> Piece.text? s
  | _ => none

/-- The natural number that a value is. -/
def nat? : Json → Option Nat
  | number n => n.nat?
  | _ => none

@[simp] theorem nat?_nat (n : Nat) : (nat n).nat? = some n := rfl

@[simp] theorem text?_text (s : String) : (text s).text? = some s := by
  simp [text, text?, Piece.text?_map_char]

end Json

end ScriptFront
