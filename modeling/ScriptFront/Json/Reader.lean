/-
Reading JSON.

Reading has two steps. The first cuts the text into atoms (brackets, marks,
words, numerals, strings) and drops the blanks between them. The second puts
the atoms together with a stack of the containers that are still open: each
atom is one step, so nesting may be as deep as the text is long, and no step
has to look ahead.
-/
import ScriptFront.Json.Basic
import ScriptFront.Text.Hex

set_option autoImplicit false

namespace ScriptFront.Json

/-! ## Atoms -/

/-- The smallest parts of a JSON text. -/
inductive Atom where
  | openArray
  | closeArray
  | openObject
  | closeObject
  | comma
  | colon
  | null
  | bool (b : Bool)
  | number (n : Numeral)
  | string (s : List Piece)

/-- A character that may stand between atoms. -/
def isSpace (c : Char) : Bool := c == ' ' || c == '\t' || c == '\n' || c == '\r'

/-- The number that four hexadecimal digits stand for. -/
def unitOf? (a b c d : Char) : Option Nat := do
  return ((← Text.hexValue? a) * 16 + (← Text.hexValue? b)) * 256
    + ((← Text.hexValue? c) * 16 + (← Text.hexValue? d))

/-- The character that a short escape stands for. -/
def shortEscape? : Char → Option Char
  | '"' => some '"'
  | '\\' => some '\\'
  | '/' => some '/'
  | 'b' => some '\x08'
  | 'f' => some '\x0c'
  | 'n' => some '\n'
  | 'r' => some '\r'
  | 't' => some '\t'
  | _ => none

/-- The items of a string up to its closing quote, and the text after that. The
characters below the blank have to be escaped. -/
def readString : List Char → Option (List Piece × List Char)
  | [] => none
  | '"' :: s => some ([], s)
  | '\\' :: 'u' :: a :: b :: c :: d :: s => do
    let n ← unitOf? a b c d
    let (pieces, rest) ← readString s
    return (.unit n :: pieces, rest)
  | '\\' :: c :: s => do
    let c ← shortEscape? c
    let (pieces, rest) ← readString s
    return (.char c :: pieces, rest)
  | c :: s => do
    if c < ' ' || c == '\\' then none
    let (pieces, rest) ← readString s
    return (.char c :: pieces, rest)

/-- The number that digits stand for. -/
def ofDigits (ds : List Char) : Nat :=
  ds.foldl (fun n d => 10 * n + (d.toNat - '0'.toNat)) 0

/-- The fraction at the head of a text, if there is one: a dot and at least one
digit. -/
def readFraction : List Char → Option (List Char × List Char)
  | '.' :: s =>
    let digits := s.takeWhile Char.isDigit
    if digits.isEmpty then none else some ('.' :: digits, s.dropWhile Char.isDigit)
  | s => some ([], s)

/-- The exponent at the head of a text, if there is one: a letter, perhaps a
sign, and at least one digit. -/
def readExponent : List Char → Option (List Char × List Char)
  | e :: s =>
    if e == 'e' || e == 'E' then
      let (sign, s) :=
        match s with
        | '+' :: t => (['+'], t)
        | '-' :: t => (['-'], t)
        | t => ([], t)
      let digits := s.takeWhile Char.isDigit
      if digits.isEmpty then none
      else some (e :: sign ++ digits, s.dropWhile Char.isDigit)
    else some ([], e :: s)
  | [] => some ([], [])

/-- A numeral from its first digit on: no zero stands in front of other digits. -/
def readNumeral (negative : Bool) (s : List Char) : Option (Numeral × List Char) := do
  let digits := s.takeWhile Char.isDigit
  if digits.isEmpty || (digits.head? == some '0' && digits.length != 1) then none
  let (fraction, s) ← readFraction (s.dropWhile Char.isDigit)
  let (exponent, s) ← readExponent s
  return ({ negative, whole := ofDigits digits, fraction, exponent }, s)

/-- The atom at the head of a text, and the text after it. -/
def readAtom : List Char → Option (Atom × List Char)
  | '[' :: s => some (.openArray, s)
  | ']' :: s => some (.closeArray, s)
  | '\x7b' :: s => some (.openObject, s)
  | '\x7d' :: s => some (.closeObject, s)
  | ',' :: s => some (.comma, s)
  | ':' :: s => some (.colon, s)
  | 'n' :: 'u' :: 'l' :: 'l' :: s => some (.null, s)
  | 't' :: 'r' :: 'u' :: 'e' :: s => some (.bool true, s)
  | 'f' :: 'a' :: 'l' :: 's' :: 'e' :: s => some (.bool false, s)
  | '"' :: s => do
    let (pieces, rest) ← readString s
    return (.string pieces, rest)
  | '-' :: s => do
    let (n, rest) ← readNumeral true s
    return (.number n, rest)
  | s => do
    let (n, rest) ← readNumeral false s
    return (.number n, rest)

/-- The atoms of a text. Each takes at least one character, so a text has no
more atoms than characters and `fuel` need not exceed its length. -/
def readAtoms : Nat → List Char → Option (List Atom)
  | fuel, s =>
    match s.dropWhile isSpace with
    | [] => some []
    | s =>
      match fuel with
      | 0 => none
      | fuel + 1 => do
        let (a, rest) ← readAtom s
        return a :: (← readAtoms fuel rest)

/-! ## Values -/

/-- A container that is still open, with what has been read of it, last item
first. -/
inductive Frame where
  | array (items : List Json)
  -- Named values; the value of the name is being read.
  | object (members : List (List Piece × Json)) (name : List Piece)

/-- What may come next. -/
inductive State where
  -- A value; `closable` if a sequence just opened may also end.
  | value (closable : Bool) (stack : List Frame)
  -- A name; `closable` if the named values just opened may also end.
  | name (closable : Bool) (members : List (List Piece × Json)) (stack : List Frame)
  -- The colon after a name.
  | colon (members : List (List Piece × Json)) (name : List Piece) (stack : List Frame)
  -- After an item of a sequence: a comma or the end.
  | afterItem (items : List Json) (stack : List Frame)
  -- After a named value: a comma or the end.
  | afterMember (members : List (List Piece × Json)) (stack : List Frame)
  -- Nothing: the value is complete.
  | complete (j : Json)

/-- A value has been read: it goes into the innermost open container. -/
def State.deliver (j : Json) : List Frame → State
  | [] => complete j
  | .array items :: stack => afterItem (j :: items) stack
  | .object members key :: stack => afterMember ((key, j) :: members) stack

/-- The state after one more atom, if that atom may come here. -/
def State.step : State → Atom → Option State
  | value _ stack, .null => some (deliver .null stack)
  | value _ stack, .bool b => some (deliver (.bool b) stack)
  | value _ stack, .number n => some (deliver (.number n) stack)
  | value _ stack, .string s => some (deliver (.string s) stack)
  | value _ stack, .openArray => some (value true (.array [] :: stack))
  | value _ stack, .openObject => some (name true [] stack)
  | value true (.array [] :: stack), .closeArray => some (deliver (.array []) stack)
  | afterItem items stack, .comma => some (value false (.array items :: stack))
  | afterItem items stack, .closeArray => some (deliver (.array items.reverse) stack)
  | name _ members stack, .string s => some (colon members s stack)
  | name true [] stack, .closeObject => some (deliver (.object []) stack)
  | colon members key stack, .colon => some (value false (.object members key :: stack))
  | afterMember members stack, .comma => some (name false members stack)
  | afterMember members stack, .closeObject => some (deliver (.object members.reverse) stack)
  | _, _ => none

/-- The value that the atoms make up, from a given state on. -/
def State.run : State → List Atom → Option Json
  | complete j, [] => some j
  | _, [] => none
  | s, a :: rest => do (← s.step a).run rest

/-- The value that a text is: one value, with blanks around it. -/
def read? (s : List Char) : Option Json := do
  (State.value false []).run (← readAtoms s.length s)

end ScriptFront.Json
