/-
Tokens: what a scanner hands out.

A token carries its class, its text, the line it is counted on and the bytes
it covers. The text of an error token is the message that explains it, so its
span, and not its text, says which part of the source was consumed.
-/
import ScriptFront.Span
import ScriptFront.Text.Field
import ScriptFront.Token.Kind

set_option autoImplicit false

namespace ScriptFront

/-- A piece of a source text with its class. -/
structure Token where
  kind : Token.Kind
  -- The text; for an error, the message.
  lexeme : String
  -- The line the token is counted on, from one.
  line : Nat
  span : Span
deriving DecidableEq, Repr

namespace Token

/-- Whether the token stands for a piece of the source that is none. -/
def isError (t : Token) : Bool := t.kind = .error

/-- Whether the token stands for the end of the source. -/
def isEof (t : Token) : Bool := t.kind = .eof

/-- The width of the column that holds a class name in an aligned text. -/
def kindWidth : Nat := 13

/-- The width of the column that holds a line number in an aligned text. -/
def lineWidth : Nat := 4

/-- The class in its column, then the text between single quotes. -/
def description (t : Token) : String :=
  Text.padRight kindWidth t.kind.name ++ " \x27" ++ t.lexeme ++ "\x27"

/-- One aligned row: line, class, text. -/
def row (t : Token) : String :=
  Text.padLeft lineWidth (toString t.line) ++ " " ++ t.description

end Token

end ScriptFront
