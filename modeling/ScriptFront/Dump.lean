/-
Dumps of a token list, and the report of its errors.

The text dump has a line for each token. It opens with the number of the line
the token is on, or with a bar when that is the line of the token before it.
The JSON dump is one sequence with a value for each token, laid out tall. Both
end in a line feed.
-/
import ScriptFront.Json.Forms
import ScriptFront.Json.Printer

set_option autoImplicit false

namespace ScriptFront.Dump

/-- What stands in place of a line number that has not changed. -/
def sameLine : String := "   | "

/-- The row of a token that comes after a token on the line `before`. -/
def row (before : Option Nat) (t : Token) : String :=
  if before = some t.line then sameLine ++ t.description ++ "\n" else t.row ++ "\n"

/-- The text dump of a token list. -/
def text (tokens : List Token) : String :=
  String.join (List.zipWith row (none :: tokens.map (some ·.line)) tokens)

/-- The JSON dump of a token list. -/
def json (tokens : List Token) : String :=
  (Json.array (tokens.map Token.toJson)).tall 0 ++ "\n"

/-- The line that reports an error token. -/
def errorLine (t : Token) : String :=
  "[line " ++ toString t.line ++ "] Error: " ++ t.lexeme

/-- The report of a token list: a line for each error in it. -/
def errors (tokens : List Token) : List String :=
  (tokens.filter Token.isError).map errorLine

end ScriptFront.Dump
