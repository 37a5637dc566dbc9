/-
Log records and the line each of them is written on.

A record has a level, a target that says which part of the program speaks, and
a message. Its line opens with level and target between brackets. On a terminal
with colours the brackets are grey and the level has a colour of its own; in
plain style the line holds nothing that steers a terminal. A message of several
lines is indented from its second line on.
-/
import ScriptFront.Text.Field
import ScriptFront.Text.Unstyled

set_option autoImplicit false

namespace ScriptFront.Log

/-! ## Levels -/

/-- How much a record matters, the gravest first. -/
inductive Level where
  | error
  | warn
  | info
  | debug
  | trace
deriving DecidableEq, Repr

namespace Level

/-- All levels, the gravest first. -/
def all : List Level := [.error, .warn, .info, .debug, .trace]

/-- The name of a level. -/
def name : Level → String
  | .error => "ERROR"
  | .warn => "WARN"
  | .info => "INFO"
  | .debug => "DEBUG"
  | .trace => "TRACE"

/-- How many levels are at least as grave. -/
def rank : Level → Nat
  | .error => 1
  | .warn => 2
  | .info => 3
  | .debug => 4
  | .trace => 5

/-- The number of the colour a level is written in. -/
def colour : Level → Nat
  | .error => 31
  | .warn => 33
  | .info => 32
  | .debug => 34
  | .trace => 36

end Level

/-! ## Records -/

/-- One remark of the program about its own work. -/
structure Record where
  level : Level
  target : String
  message : String
deriving DecidableEq, Repr

/-- Whether lines are coloured. -/
inductive Style where
  | plain
  | coloured
deriving DecidableEq, Repr

/-- A text in the colour or weight of a terminal code, then back to normal. -/
def styled (code : Nat) (s : String) : String :=
  "\x1b[" ++ toString code ++ "m" ++ s ++ "\x1b[0m"

namespace Record

/-- The width of the column for level names. -/
def levelWidth : Nat := 5

/-- What stands at the start of the lines after the first. -/
def indent : String := "    "

/-- A character of a message on its indented lines. -/
def indented (c : Char) : String := if c = '\n' then "\n" ++ indent else String.singleton c

/-- The message, indented from the second line on. -/
def body (r : Record) : String := String.join (r.message.toList.map indented)

/-- The line of a record, with its line end. In plain style a message that leaves
a terminal sequence open loses the line end with it. -/
def line (r : Record) : Style → String
  | .plain =>
    Text.unstyled
      ("[" ++ Text.padRight levelWidth r.level.name ++ " " ++ r.target ++ "] " ++ r.body ++ "\n")
  | .coloured =>
    styled 90 "[" ++ styled r.level.colour (Text.padRight levelWidth r.level.name) ++ " "
      ++ r.target ++ styled 90 "]" ++ " " ++ r.body ++ "\n"

end Record

end ScriptFront.Log
