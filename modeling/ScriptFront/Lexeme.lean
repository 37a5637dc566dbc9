/-
Lexemes: what stands at the head of a source text.

Between tokens lie blanks, line ends and comments; `skipTrivia` passes over
them. What follows begins with a character that decides its class, and the
lexeme is the longest stretch that the class allows. `Lexeme.ofHead` cuts it
off with `takeWhile` and `dropWhile`, so nothing is lost: the lexeme and the
rest put together are the text it was cut from (`Lexeme.text_append_rest`), and
the lexeme has at least the character it was chosen by.
-/
import ScriptFront.Place
import ScriptFront.Token.Dialect

set_option autoImplicit false

namespace ScriptFront

open Token (Kind)

/-! ## Characters -/

/-- An ASCII letter or an underscore: what a name begins with. -/
def isLetter (c : Char) : Bool := c.isAlpha || c == '_'

/-- A letter, an underscore or a digit: what a name goes on with. -/
def isWordChar (c : Char) : Bool := isLetter c || c.isDigit

/-- A character that separates tokens and means nothing else. -/
def isBlank (c : Char) : Bool := c == ' ' || c == '\t' || c == '\r' || c == '\n'

/-! ## Between tokens -/

/-- Passes over blanks, line ends and comments, and returns the place reached
with the text from there on. A comment runs from two slashes up to the end of
its line; `inComment` says whether the text starts inside one. -/
def skipTrivia (p : Place) (inComment : Bool) : List Char → Place × List Char
  | [] => (p, [])
  | c :: s =>
    if c = '\n' then skipTrivia (p.advance c) false s
    else if inComment || isBlank c then skipTrivia (p.advance c) inComment s
    else if c = '/' ∧ s.head? = some '/' then skipTrivia (p.advance c) true s
    else (p, c :: s)

/-- The text left over is an end of the text passed over. -/
theorem suffix_skipTrivia (p : Place) (inComment : Bool) (s : List Char) :
    (skipTrivia p inComment s).2 <:+ s := by
  induction s generalizing p inComment with
  | nil => simp [skipTrivia]
  | cons c s ih =>
    rw [skipTrivia]
    split
    · exact (ih _ _).trans (List.suffix_cons c s)
    · split
      · exact (ih _ _).trans (List.suffix_cons c s)
      · split
        · exact (ih _ _).trans (List.suffix_cons c s)
        · exact List.suffix_refl _

/-! ## Lexemes -/

/-- Why a piece of source is no token. -/
inductive LexicalError where
  -- A string has no closing quote up to the end of the source.
  | unterminatedString
  -- A character starts no token.
  | unexpectedCharacter
deriving DecidableEq, Repr

/-- The message that explains the error. -/
def LexicalError.message : LexicalError → String
  | .unterminatedString => "unterminated string"
  | .unexpectedCharacter => "Unexpected character."

/-- What stands at the head of a text, cut off from the rest. -/
structure Lexeme where
  -- The class of the token, or why there is none.
  verdict : Except LexicalError Kind
  text : List Char
  rest : List Char

namespace Lexeme

/-- A lexeme of one character. -/
def single (verdict : Except LexicalError Kind) (c : Char) (s : List Char) : Lexeme :=
  { verdict, text := [c], rest := s }

/-- A symbol, from its first character; an equals sign belongs to it if it makes
an operator of the two. -/
def symbol (a : Token.Symbol) (c : Char) (s : List Char) : Lexeme :=
  match a.withEqual?, s with
  | some b, '=' :: t => { verdict := .ok (.symbol b), text := [c, '='], rest := t }
  | _, _ => single (.ok (.symbol a)) c s

/-- A name or a keyword, from its first letter. -/
def word (d : Dialect) (c : Char) (s : List Char) : Lexeme :=
  let text := c :: s.takeWhile isWordChar
  { verdict := .ok (d.wordKind text), text, rest := s.dropWhile isWordChar }

/-- A numeral, from its first digit: digits, then at most one dot with any
digits after it. -/
def numeral (c : Char) (s : List Char) : Lexeme :=
  let whole := c :: s.takeWhile Char.isDigit
  match s.dropWhile Char.isDigit with
  | '.' :: t =>
    { verdict := .ok .number, text := whole ++ '.' :: t.takeWhile Char.isDigit
      rest := t.dropWhile Char.isDigit }
  | t => { verdict := .ok .number, text := whole, rest := t }

/-- A string, from its opening quote up to the next quote. Nothing inside is an
escape, and line ends are allowed. -/
def quoted (c : Char) (s : List Char) : Lexeme :=
  let body := c :: s.takeWhile (· != '"')
  match s.dropWhile (· != '"') with
  | q :: t => { verdict := .ok .string, text := body ++ [q], rest := t }
  | [] => { verdict := .error .unterminatedString, text := body, rest := [] }

/-- The lexeme that begins with `c` and goes on in `s`. -/
def ofHead (d : Dialect) (c : Char) (s : List Char) : Lexeme :=
  if isLetter c then word d c s
  else if c.isDigit then numeral c s
  else if c = '"' then quoted c s
  else
    match Token.Symbol.ofChar? c with
    | some a => symbol a c s
    | none => single (.error .unexpectedCharacter) c s

/-! ## What a lexeme consists of -/

/-- Nothing is lost: a lexeme and the rest make up the text they were cut from. -/
theorem text_append_rest (d : Dialect) (c : Char) (s : List Char) :
    (ofHead d c s).text ++ (ofHead d c s).rest = c :: s := by
  unfold ofHead
  split
  · simp [word]
  split
  · have whole := List.takeWhile_append_dropWhile (p := Char.isDigit) (l := s)
    rw [numeral]
    split
    · next t ht => simpa [ht] using whole
    · simp
  split
  · have body := List.takeWhile_append_dropWhile (p := (· != '"')) (l := s)
    rw [quoted]
    split
    · next q t ht => simpa [ht] using body
    · next ht => simpa [ht] using body
  split
  · rw [symbol.eq_def]
    split <;> simp [single]
  · rfl

/-- A lexeme begins with the character it was chosen by. -/
theorem head?_text (d : Dialect) (c : Char) (s : List Char) :
    (ofHead d c s).text.head? = some c := by
  unfold ofHead
  split
  · simp [word]
  split
  · rw [numeral]
    split <;> simp
  split
  · rw [quoted]
    split <;> simp
  split
  · rw [symbol.eq_def]
    split <;> simp [single]
  · rfl

/-- The rest is shorter than the text it was cut from. -/
theorem length_rest_le (d : Dialect) (c : Char) (s : List Char) :
    (ofHead d c s).rest.length ≤ s.length := by
  have whole := congrArg List.length (text_append_rest d c s)
  have head := head?_text d c s
  cases htext : (ofHead d c s).text with
  | nil => simp [htext] at head
  | cons a t =>
    simp only [htext, List.cons_append, List.length_cons, List.length_append] at whole
    omega

end Lexeme

end ScriptFront
