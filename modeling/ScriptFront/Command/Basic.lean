/-
Commands, and how they can end.

A command reads a source, from a file or from the standard input. `tokens`
writes the tokens of the source as text or as JSON, to a file or to the standard
output; `check` says whether the source has errors. What goes wrong is a failure
with a cause, and every way to end has its exit code.
-/
import ScriptFront.Dump
import ScriptFront.File.Replacement
import ScriptFront.Host

set_option autoImplicit false

namespace ScriptFront

/-! ## Commands -/

/-- Where a source comes from. -/
inductive Command.Input where
  | standard
  | file (path : String)
deriving DecidableEq, Repr

/-- Where a dump goes. -/
inductive Command.Output where
  | standard
  -- A file, which is replaced as a whole.
  | file (path : String)
deriving DecidableEq, Repr

/-- How a dump is written. -/
inductive Command.Format where
  | text
  | json
deriving DecidableEq, Repr

/-- What the program is asked to do. -/
inductive Command where
  | tokens (input : Command.Input) (output : Command.Output) (format : Command.Format)
      (dialect : Dialect)
  | check (input : Command.Input) (dialect : Dialect)
deriving DecidableEq, Repr

namespace Command

/-- The dump of a token list in a format. -/
def Format.dump : Format → List Token → String
  | .text => Dump.text
  | .json => Dump.json

/-! ## Ends -/

/-- How a run ends. -/
inductive ExitStatus where
  | success
  | failure
  -- The arguments ask for nothing that can be done.
  | usage
  | lexicalErrors
deriving DecidableEq, Repr

/-- The exit code of an end. -/
def ExitStatus.code : ExitStatus → UInt8
  | .success => 0
  | .failure => 1
  | .usage => 2
  | .lexicalErrors => 65

/-- Why a command could not be carried out. -/
inductive Failure where
  | input (cause : File.Fault)
  | source (path : String) (cause : File.ReadFault)
  | output (path : String) (cause : File.ReplaceFault)
deriving DecidableEq, Repr

namespace Failure

/-- Causes in words, the outermost first. -/
def chain (causes : List String) : String := ": ".intercalate causes

/-- The failure in words. -/
def message : Failure → String
  | .input cause => chain ["lecture de la source", cause.message]
  | .source path (.opening cause) =>
    chain ["lecture de la source", "ouverture", path, cause.message]
  | .source path (.reading cause) =>
    chain ["lecture de la source", "lecture", path, cause.message]
  | .output path .noDirectory =>
    chain ["écriture de " ++ path, "chemin de sortie sans parent", path]
  | .output path (.failed cause) => chain ["écriture de " ++ path, cause.message]

end Failure

end Command

end ScriptFront
