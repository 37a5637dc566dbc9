/-
What the program is asked to do by its arguments.

The arguments have two levels: settings of the whole program, then the word of a
command with settings of its own. A setting of the whole program that is given
after the command counts instead of one before it.

An invocation and the variables of the surroundings decide what is shown of the
log: a filter in the variables wins over the arguments, and so does a style. If
no style is set, colour is a matter of two more variables, over which the
arguments win.
-/
import ScriptFront.Command.Basic
import ScriptFront.Command.Settings

set_option autoImplicit false

namespace ScriptFront.Command

/-! ## Reading the arguments -/

/-- A command, and how its work is logged. -/
structure Invocation where
  command : Command
  verbosity : Nat := 0
  quiet : Bool := false
  color : Color := .auto
deriving DecidableEq, Repr

namespace Settings

/-- The input that an operand names: a dash, as none at all, is the standard input. -/
def input (s : Settings) : Input :=
  match s.operand with
  | none | some "-" => .standard
  | some path => .file path

/-- The command of a level and what it settles. -/
def command? (s : Settings) : Scope → Option Command
  | .program => none
  | .tokens =>
    some (.tokens s.input (s.output.elim .standard .file) (if s.json then .json else .text)
      { distinctFun := s.distinctFun })
  | .check => some (.check s.input { distinctFun := s.distinctFun })

end Settings

namespace Invocation

/-- The command with the settings of both levels. -/
def ofLevels (outer inner : Settings) (command : Command) : Invocation where
  command := command
  verbosity := if inner.verbosity = 0 then outer.verbosity else inner.verbosity
  quiet := outer.quiet || inner.quiet
  color := (inner.color.or outer.color).getD .auto

/-- What a list of words after `help` asks for. -/
def readHelp : List String → Stop
  | [] | ["help"] => .help .program
  | word :: more =>
    match Scope.ofWord? word, more with
    | some scope, [] => .help scope
    | some _, next :: _ => .usage (.commandUnknown next)
    | none, _ => .usage (.commandUnknown word)

/-- Reads on after some arguments of the outer level. -/
def readFrom (outer : Reading) : List String → Except Stop Invocation
  | [] => do
    let _ ← outer.finish
    .error (.usage .commandMissing)
  | arg :: more =>
    let scope := if outer.awaiting.isNone ∧ ¬outer.closed then Scope.ofWord? arg else none
    match scope with
    | some scope => do
      let inner ← Reading.settle scope more
      match inner.command? scope with
      | some command => .ok (ofLevels outer.settings inner command)
      | none => .error (.usage .commandMissing)
    | none =>
      if arg = "help" ∧ outer.awaiting.isNone ∧ ¬outer.closed then .error (readHelp more)
      else do readFrom (← outer.step .program arg) more

/-- What the arguments ask for. -/
def read (args : List String) : Except Stop Invocation := readFrom {} args

end Invocation

/-! ## What is shown -/

/-- The variables of the surroundings that matter. -/
structure Environment where
  logFilter : Option String := none
  logStyle : Option String := none
  -- Set to something if no colours are wanted.
  noColor : Option String := none
  -- Set to something if colours are wanted in any case.
  forceColor : Option String := none
deriving DecidableEq, Repr

namespace Environment

/-- Whether a variable is set to something. -/
def isGiven (v : Option String) : Bool := v.getD "" ≠ ""

/-- The style that the variables ask for: the style that is set, if it is one of
two words, and otherwise colours if they are forced and not refused. -/
def style (e : Environment) : Log.Style :=
  match e.logStyle with
  | some "always" => .coloured
  | some "never" => .plain
  | _ => if !isGiven e.noColor && isGiven e.forceColor then .coloured else .plain

/-- The variables with a choice of colours put into them. -/
def withColor (e : Environment) : Color → Environment
  | .auto => e
  | .always => { e with noColor := none, forceColor := some "1" }
  | .never => { e with noColor := some "1", forceColor := none }

end Environment

namespace Invocation

/-- The last level that the arguments let pass. -/
def level (i : Invocation) : Log.Level :=
  if i.quiet then .error
  else
    match i.verbosity with
    | 0 => .warn
    | 1 => .info
    | 2 => .debug
    | _ => .trace

/-- The log filter, and a complaint for each part of it that is left out. -/
def filter (i : Invocation) (e : Environment) : Log.Filter × List String :=
  match e.logFilter with
  | some s => Log.Filter.read s
  | none => (.upTo i.level, [])

/-- What is shown of the log, and how. -/
def display (i : Invocation) (e : Environment) : Log.Display where
  filter := (i.filter e).1
  style := (e.withColor i.color).style

/-- What is told before the command is carried out. -/
def warnings (i : Invocation) (e : Environment) : List Log.Event :=
  (i.filter e).2.map fun complaint => .line ("warning: " ++ complaint ++ ", ignoring it")

end Invocation

end ScriptFront.Command
