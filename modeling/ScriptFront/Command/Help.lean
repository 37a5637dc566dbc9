/-
What the program says about itself and its arguments.

The help of a level lists what can stand there. A usage fault is put into words
and followed by a short form of the help.
-/
import ScriptFront.Command.Settings
import ScriptFront.Text.Field

set_option autoImplicit false

namespace ScriptFront.Command

/-- The program's name. -/
def programName : String := "ember"

/-- The program's version. -/
def programVersion : String := "0.1.0"

/-- Name and version, on a line. -/
def versionText : String := programName ++ " " ++ programVersion ++ "\n"

/-! ## Help -/

/-- What a level is for. -/
def Scope.purpose : Scope → String
  | .program => "Ember CLI : jetons et vérification lexicale"
  | .tokens => "Afficher les jetons d\x27une source"
  | .check => "Vérifier qu\x27une source ne contient aucune erreur lexicale"

/-- How a level is written. -/
def Scope.usage : Scope → String
  | .program => programName ++ " [OPTIONS] <COMMAND>"
  | .tokens => programName ++ " tokens [OPTIONS] [INPUT]"
  | .check => programName ++ " check [OPTIONS] [INPUT]"

/-- What an option does. -/
def Switch.purpose : Switch → String
  | .verbose => "Augmente la verbosité (-v, -vv, -vvv)"
  | .quiet => "Mode silencieux (n\x27affiche que les erreurs)"
  | .color =>
    "Couleur des messages d\x27état [default: auto] [possible values: auto, always, never]"
  | .output => "Fichier de sortie (stdout si omis)"
  | .json => "Sortie JSON"
  | .distinctFun => "`fun` produit FUN au lieu de FOR"
  | .help => "Print help"
  | .version => "Print version"

/-- How an option is written. -/
def Switch.form (s : Switch) : String :=
  (match s.letter? with
  | some c => "-" ++ String.singleton c ++ ", "
  | none => "    ")
  ++ "--" ++ s.longName
  ++ (match s with
  | .color => " <COLOR>"
  | .output => " <OUTPUT>"
  | .verbose => "..."
  | _ => "")

/-- Rows of two columns. -/
def table (rows : List (String × String)) : String :=
  let width := (rows.map (·.1.length)).foldl max 0
  String.join (rows.map fun (left, right) =>
    "  " ++ Text.padRight width left ++ "  " ++ right ++ "\n")

/-- The rows for the operands or commands of a level. -/
def Scope.words : Scope → String
  | .program =>
    "Commands:\n" ++ table [("tokens", Scope.tokens.purpose), ("check", Scope.check.purpose),
      ("help", "Print this message or the help of the given subcommand(s)")]
  | _ => "Arguments:\n" ++ table [("[INPUT]", "Fichier source (ou - pour stdin)")]

/-- The help of a level. -/
def Scope.helpText (scope : Scope) : String :=
  scope.purpose ++ "\n\nUsage: " ++ scope.usage ++ "\n\n" ++ scope.words ++ "\nOptions:\n"
    ++ table ((Switch.all.filter (·.standsIn scope)).map fun s => (s.form, s.purpose))

/-! ## Usage faults -/

namespace UsageFault

/-- A text between single quotes. -/
def quoted (s : String) : String := "\x27" ++ s ++ "\x27"

/-- The fault in words. -/
def message : UsageFault → String
  | .unknownOption name => "unexpected argument " ++ quoted name ++ " found"
  | .valueUnwanted s => "unexpected value for " ++ quoted ("--" ++ s.longName) ++ " found"
  | .valueMissing s => "a value is required for " ++ quoted ("--" ++ s.longName)
  | .valueInvalid s value =>
    "invalid value " ++ quoted value ++ " for " ++ quoted ("--" ++ s.longName)
  | .repeated s =>
    "the argument " ++ quoted ("--" ++ s.longName) ++ " cannot be used multiple times"
  | .pathEmpty => "a value is required for a path but none was supplied"
  | .wordUnexpected word => "unexpected argument " ++ quoted word ++ " found"
  | .commandUnknown word => "unrecognized subcommand " ++ quoted word
  | .commandMissing => quoted programName ++ " requires a subcommand but one was not provided"

/-- The fault in words, and where to find help. -/
def text (fault : UsageFault) : String :=
  "error: " ++ fault.message ++ "\n\nUsage: " ++ Scope.program.usage
    ++ "\n\nFor more information, try " ++ quoted "--help" ++ ".\n"

end UsageFault

end ScriptFront.Command
