/-
What the program remarks about its own work.

Two parts of it speak: the scanner, about each token it hands out, and the
command, about the source it has loaded and the errors it has met.
-/
import ScriptFront.Log.Record
import ScriptFront.Text.Literal
import ScriptFront.Token.Basic

set_option autoImplicit false

namespace ScriptFront.Log

/-- The target of what the scanner remarks. -/
def scannerTarget : String := "ember_lexer::scanner"

/-- The target of what the command remarks. -/
def commandTarget : String := "ember_cli"

/-- A source of some bytes has been read from a file. -/
def loaded (path : String) (bytes : Nat) : Record where
  level := .info
  target := commandTarget
  message := "source chargée: " ++ path ++ " (" ++ toString bytes ++ " octets)"

/-- An error is about to be handed out. -/
def lexicalError (t : Token) : Record where
  level := .debug
  target := scannerTarget
  message := "lexical error at line " ++ toString t.line ++ ": " ++ t.lexeme

/-- A token has been handed out. -/
def token (t : Token) : Record where
  level := .trace
  target := scannerTarget
  message := "token " ++ t.kind.name ++ " " ++ Text.literal t.lexeme ++ " @" ++ toString t.line

/-- A span with the names of its parts, as it is shown in a remark. -/
def describe (s : Span) : String :=
  "Span \x7b start: Pos(" ++ toString s.start.toNat ++ "), end: Pos(" ++ toString s.stop.toNat
    ++ ") \x7d"

/-- The command has met an error token. -/
def errorMet (t : Token) : Record where
  level := .debug
  target := commandTarget
  message := "error token at " ++ describe t.span

/-- What the scanner remarks about a token: nothing about the end, and about an
error the error first. -/
def ofToken (t : Token) : List Record :=
  if t.isEof then []
  else if t.isError then [lexicalError t, token t]
  else [token t]

/-- What is remarked about a token whose errors are looked for. -/
def ofCheckedToken (t : Token) : List Record :=
  ofToken t ++ if t.isError then [errorMet t] else []

end ScriptFront.Log
