/-
The options that arguments can name.

Each option has a long name, some have a short letter, and some want a value.
Three of them are settings of the whole program and may stand before or after
the command; the others belong to a level of the command line.
-/

set_option autoImplicit false

namespace ScriptFront.Command

/-- A level of the command line: before the command, or after a command. -/
inductive Scope where
  | program
  | tokens
  | check
deriving DecidableEq, Repr

/-- The word that opens a level. -/
def Scope.word? : Scope → Option String
  | .program => none
  | .tokens => some "tokens"
  | .check => some "check"

/-- The level that a word opens. -/
def Scope.ofWord? (word : String) : Option Scope :=
  [Scope.tokens, Scope.check].find? (·.word? = some word)

/-- An option. -/
inductive Switch where
  | verbose
  | quiet
  | color
  | output
  | json
  | distinctFun
  | help
  | version
deriving DecidableEq, Repr

namespace Switch

/-- All options. -/
def all : List Switch :=
  [.verbose, .quiet, .color, .output, .json, .distinctFun, .help, .version]

/-- The long name, after two dashes. -/
def longName : Switch → String
  | .verbose => "verbose"
  | .quiet => "quiet"
  | .color => "color"
  | .output => "output"
  | .json => "json"
  | .distinctFun => "distinct-fun"
  | .help => "help"
  | .version => "version"

/-- The short letter, after one dash. -/
def letter? : Switch → Option Char
  | .verbose => some 'v'
  | .quiet => some 'q'
  | .output => some 'o'
  | .help => some 'h'
  | .version => some 'V'
  | .color | .json | .distinctFun => none

/-- Whether the option wants a value. -/
def wantsValue : Switch → Bool
  | .color | .output => true
  | _ => false

/-- Whether the option may stand at a level. -/
def standsIn : Switch → Scope → Bool
  | .verbose, _ | .quiet, _ | .color, _ | .help, _ => true
  | .version, scope => scope = .program
  | .distinctFun, scope => scope ≠ .program
  | .output, scope | .json, scope => scope = .tokens

/-- The option of a long name at a level. -/
def ofLongName? (scope : Scope) (name : String) : Option Switch :=
  all.find? fun s => s.standsIn scope && s.longName = name

/-- The option of a letter at a level. -/
def ofLetter? (scope : Scope) (c : Char) : Option Switch :=
  all.find? fun s => s.standsIn scope && s.letter? = some c

end Switch

end ScriptFront.Command
