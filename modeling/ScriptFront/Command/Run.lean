/-
Carrying out a command.

The source is read first; if that fails, nothing else happens. Then all its
tokens are taken, and what the scanner remarks about them is told before
anything is written. A dump that goes to a file is confirmed by a status line,
one that goes to the standard output is not. A check lists the errors and ends
with a status line, in green if there are none and in red otherwise.
-/
import ScriptFront.Command.Basic
import ScriptFront.Cursor
import ScriptFront.Log.Remarks

set_option autoImplicit false

namespace ScriptFront.Command

variable {m : Type → Type} [Monad m] [Host m]

/-! ## Sources -/

/-- The text that bytes spell, if they spell one. -/
def decode (bytes : ByteArray) : Except File.Fault String :=
  match String.fromUTF8? bytes with
  | some s => .ok s
  | none => .error .notText

/-- The source that a command reads. -/
def Input.read : Input → ExceptT Failure m String
  | .standard => do
    let bytes ← ExceptT.adapt Failure.input (Host.input (m := m))
    ExceptT.mk (pure ((decode bytes).mapError .input))
  | .file path => do
    let bytes ← ExceptT.adapt (.source path) (File.Store.read (m := m) path)
    let source ← ExceptT.mk (pure ((decode bytes).mapError (.source path <| .reading ·)))
    Host.remark (m := m) (Log.loaded path bytes.size)
    return source

/-! ## Status lines -/

/-- A tag in bold letters of a colour, then a message. -/
def statusLine (colour : Nat) (tag message : String) : String :=
  "\x1b[1m\x1b[" ++ toString colour ++ "m" ++ tag ++ "\x1b[39m\x1b[0m " ++ message

/-- The status line of something done. -/
def doneLine (tag message : String) : String := statusLine 32 tag message

/-- The status line of something that has gone wrong. -/
def wrongLine (tag message : String) : String := statusLine 31 tag message

/-! ## Commands -/

/-- Tells events in their order. -/
def tellAll (events : List Log.Event) : m Unit := events.forM Host.tell

/-- Puts a dump where it belongs. -/
def Output.write (dump : String) : Output → ExceptT Failure m Unit
  | .standard => Host.print (m := m) dump
  | .file path => do
    ExceptT.adapt (.output path) (File.replace (m := m) path dump)
    Host.tell (m := m) (.line (doneLine "TOKENS" path))

/-- What a check tells about the tokens of a source, once they are all taken. -/
def verdict (tokens : List Token) : List Log.Event × ExitStatus :=
  let errors := Dump.errors tokens
  let status :=
    if errors.isEmpty then doneLine "CHECK" "aucune erreur lexicale"
    else wrongLine "CHECK" (toString errors.length ++ " erreur(s) lexicale(s)")
  ((errors ++ [status]).map .line, if errors.isEmpty then .success else .lexicalErrors)

/-- Carries out a command. -/
def run : Command → ExceptT Failure m ExitStatus
  | .tokens input output format dialect => do
    let source ← input.read
    let tokens := Token.ofSource dialect source
    tellAll (m := m) ((tokens.flatMap Log.ofToken).map .record)
    output.write (format.dump tokens)
    return .success
  | .check input dialect => do
    let source ← input.read
    let tokens := Token.ofSource dialect source
    tellAll (m := m) ((tokens.flatMap Log.ofCheckedToken).map .record)
    let (events, status) := verdict tokens
    tellAll (m := m) events
    return status

end ScriptFront.Command
