/-
Texts without what only steers a terminal.

An escape character opens a sequence that a terminal obeys and does not show.
Most sequences end with their first letter, perhaps after marks or numbers;
those that carry a string go on until they are broken off or, unless what they
carry is a title, until a byte that closes strings, which a character may hold
in its encoding. A title ends with a bell.

A tab or a line end stops a sequence that is not carrying a string: from there
on the text is shown again. But the sequence is only put aside. The next control
that cannot be shown takes it up where it stopped, unless a character beyond
ASCII has come in between. Outside sequences such controls are taken out.

At the end of a text an open sequence may so have swallowed the line end.
-/

set_option autoImplicit false

namespace ScriptFront.Text

namespace Unstyled

/-! ## Characters -/

/-- Whether a control moves the text on: a tab, a line end or a page end. -/
def moves (c : Char) : Bool := c = '\t' || c = '\n' || c = '\x0c' || c = '\r'

/-- Whether an ASCII character can be shown. -/
def isVisible (c : Char) : Bool := (' ' ≤ c && c < '\x7f') || moves c

/-- Whether a character takes more than one byte. -/
def isWide (c : Char) : Bool := '\x7f' < c

/-- The byte that closes a string. -/
def closingByte : UInt8 := 0x9C

/-- Whether the closing byte is one of those that encode a character. -/
def closes (c : Char) : Bool := (String.utf8EncodeChar c).contains closingByte

/-- Whether a character breaks off any sequence. -/
def breaksOff (c : Char) : Bool := c = '\x18' || c = '\x1a'

/-- Whether a character lies between two others. -/
def between (first last c : Char) : Bool := first ≤ c && c ≤ last

/-! ## Sequences -/

/-- How far a sequence has come. -/
inductive Sequence where
  | escape
  | modified
  | numbered
  | device
  | deviceNumbered
  | deviceModified
  | carrying
  | titling
deriving DecidableEq, Repr

namespace Sequence

/-- Whether a control that moves the text on is heeded within the sequence. -/
def heeds : Sequence → Bool
  | .escape | .modified | .numbered => true
  | _ => false

/-- The sequence after one more ASCII character, unless it has ended. -/
def next? (q : Sequence) (c : Char) : Option Sequence :=
  match q with
  | .escape =>
    if between ' ' '/' c then some .modified
    else if c = '[' then some .numbered
    else if c = ']' then some .titling
    else if c = 'P' then some .device
    else if c = 'X' || c = '^' || c = '_' then some .carrying
    else if between '0' '~' c then none
    else some .escape
  | .modified => if between '0' '~' c then none else some .modified
  | .numbered => if between '@' '~' c then none else some .numbered
  | .device =>
    if between ' ' '/' c then some .deviceModified
    else if between '0' '?' c then some .deviceNumbered
    else if between '@' '~' c then some .carrying
    else some .device
  | .deviceNumbered =>
    if between ' ' '/' c then some .deviceModified
    else if between '<' '~' c then some .carrying
    else some .deviceNumbered
  | .deviceModified => if between '0' '~' c then some .carrying else some .deviceModified
  | .carrying => some .carrying
  | .titling => if c = '\x07' then none else some .titling

/-- The sequence after one more character of several bytes, unless it has ended. -/
def nextWide? (q : Sequence) (c : Char) : Option Sequence :=
  if q = .carrying ∧ closes c then none else some q

end Sequence

/-! ## Texts -/

/-- Where in a text one is. -/
inductive State where
  | plain
  | within (q : Sequence)
  | aside (q : Sequence)
deriving DecidableEq, Repr

namespace State

/-- The state in which what is left of a sequence is read. -/
def ofNext : Option Sequence → State
  | none => .plain
  | some q => .within q

/-- The state after a character, and whether the character is shown. -/
def step (s : State) (c : Char) : State × Bool :=
  if c = '\x1b' then (.within .escape, false)
  else if breaksOff c then (.plain, false)
  else
    match s with
    | .plain => (.plain, isWide c || isVisible c)
    | .within q =>
      if isWide c then (ofNext (q.nextWide? c), false)
      else if q.heeds && moves c then (.aside q, true)
      else (ofNext (q.next? c), false)
    | .aside q =>
      if isWide c then (.plain, true)
      else if isVisible c then (.aside q, true)
      else (.within q, false)

end State

/-- The characters shown of a text that begins in a state. -/
def shown : State → List Char → List Char
  | _, [] => []
  | s, c :: text =>
    let (next, kept) := s.step c
    if kept then c :: shown next text else shown next text

end Unstyled

/-- The text without terminal sequences and idle controls. -/
def unstyled (s : String) : String := String.ofList (Unstyled.shown .plain s.toList)

/-- Colours, a title and a bell go; letters, accents and line ends stay. A tab
puts a sequence aside and a bell takes it up again. -/
example :
    unstyled "\x1b[1m\x1b[32mé\x1b[0m\n\x1b]0;title\x07b\x07\x1b(Bc\x1b[3\tbc\x07def"
      = "é\nbc\tbcef" := by
  decide +kernel

/-- A string ends with a character whose encoding holds the closing byte, and
an open string takes the line end with it. -/
example : unstyled "\x1bPqÜx\n\x1b_a\n" = "x\n" := by
  decide +kernel

end ScriptFront.Text
