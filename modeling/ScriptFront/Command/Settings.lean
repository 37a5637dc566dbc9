/-
What the arguments of one level settle.

An argument is a separator, a long option, a row of short ones, or a plain word.
A long option carries its value after an equals sign, a short one behind its
letter, with or without an equals sign; else the value is the next argument,
which must then be a plain word. All plain words after a separator are operands,
even those that look like options.

An option that is given twice at a level is an error, with the exception of the
one that can be repeated. Asking for help or for the version ends the reading at
once, so that what follows does not matter and an error before it does.
-/
import ScriptFront.Command.Switch
import ScriptFront.Text.Split

set_option autoImplicit false

namespace ScriptFront.Command

/-! ## Why reading ends early -/

/-- Why arguments ask for nothing that can be done. -/
inductive UsageFault where
  | unknownOption (name : String)
  -- An option that wants no value has one.
  | valueUnwanted (s : Switch)
  -- An option that wants a value has none.
  | valueMissing (s : Switch)
  -- An option's value is none that it takes.
  | valueInvalid (s : Switch) (value : String)
  | repeated (s : Switch)
  | pathEmpty
  | wordUnexpected (word : String)
  -- A word that should be a command is none.
  | commandUnknown (word : String)
  | commandMissing
deriving DecidableEq, Repr

/-- Why reading the arguments ends without a command. -/
inductive Stop where
  | help (scope : Scope)
  | version
  | usage (fault : UsageFault)
deriving DecidableEq, Repr

/-! ## Arguments by shape -/

/-- What an argument looks like. -/
inductive Shape where
  -- Two dashes alone.
  | separator
  -- A long name, perhaps with a value.
  | long (name : String) (value : Option String)
  -- A row of letters, the last of them perhaps with a value.
  | short (letters : List Char)
  -- A word, a dash alone included.
  | plain
deriving DecidableEq, Repr

/-- A long name and the value after the first equals sign. -/
def Shape.ofLong (name : List Char) : Shape :=
  .long (String.ofList (name.takeWhile (· ≠ '=')))
    (match name.dropWhile (· ≠ '=') with
    | [] => none
    | _ :: value => some (String.ofList value))

/-- The shape of an argument. -/
def Shape.of (arg : String) : Shape :=
  match arg.toList with
  | ['-', '-'] => .separator
  | '-' :: '-' :: name => .ofLong name
  | '-' :: c :: letters => .short (c :: letters)
  | _ => .plain

/-! ## Settings -/

/-- Whether log lines are coloured, as far as the arguments say. -/
inductive Color where
  -- As the surroundings have it.
  | auto
  | always
  | never
deriving DecidableEq, Repr

/-- The choice of a name. -/
def Color.ofName? : String → Option Color
  | "auto" => some .auto
  | "always" => some .always
  | "never" => some .never
  | _ => none

/-- What the options and operands of one level say. -/
structure Settings where
  verbosity : Nat := 0
  quiet : Bool := false
  color : Option Color := none
  output : Option String := none
  json : Bool := false
  distinctFun : Bool := false
  operand : Option String := none
deriving DecidableEq, Repr

namespace Settings

/-- A value that is set for the first time. -/
def once {α : Type} (s : Switch) (before : Option α) (a : α) : Except Stop (Option α) :=
  match before with
  | none => .ok (some a)
  | some _ => .error (.usage (.repeated s))

/-- A flag that is set for the first time. -/
def onceFlag (s : Switch) (before : Bool) : Except Stop Bool :=
  if before then .error (.usage (.repeated s)) else .ok true

/-- A path, which must not be empty. -/
def path (value : String) : Except Stop String :=
  if value = "" then .error (.usage .pathEmpty) else .ok value

/-- The settings with an option that has no value. -/
def give (scope : Scope) (settings : Settings) (s : Switch) : Except Stop Settings :=
  match s with
  | .verbose => .ok { settings with verbosity := settings.verbosity + 1 }
  | .quiet => return { settings with quiet := ← onceFlag s settings.quiet }
  | .json => return { settings with json := ← onceFlag s settings.json }
  | .distinctFun => return { settings with distinctFun := ← onceFlag s settings.distinctFun }
  | .help => .error (.help scope)
  | .version => .error .version
  | .color | .output => .error (.usage (.valueMissing s))

/-- The settings with an option and its value. -/
def giveValue (settings : Settings) (s : Switch) (value : String) : Except Stop Settings :=
  match s with
  | .color =>
    match Color.ofName? value with
    | some c => return { settings with color := ← once s settings.color c }
    | none => .error (.usage (.valueInvalid s value))
  | .output => return { settings with output := ← once s settings.output (← path value) }
  | _ => .error (.usage (.valueUnwanted s))

/-- The settings with an operand. Before the command none is expected. -/
def giveOperand (scope : Scope) (settings : Settings) (word : String) : Except Stop Settings :=
  if scope = .program then .error (.usage (.commandUnknown word))
  else
    match settings.operand with
    | some _ => .error (.usage (.wordUnexpected word))
    | none => return { settings with operand := some (← path word) }

end Settings

/-! ## Reading a level -/

/-- How far a level has been read. -/
structure Reading where
  settings : Settings := {}
  -- An option whose value must come next.
  awaiting : Option Switch := none
  -- Whether a separator has been passed.
  closed : Bool := false
deriving DecidableEq, Repr

namespace Reading

/-- The value behind a letter: all that follows, less an equals sign before it. -/
def attached : List Char → Option String
  | [] => none
  | '=' :: value => some (String.ofList value)
  | value => some (String.ofList value)

/-- The reading after a row of letters. -/
def letters (scope : Scope) (settings : Settings) : List Char → Except Stop Reading
  | [] => .ok { settings }
  | c :: more =>
    match Switch.ofLetter? scope c with
    | none => .error (.usage (.unknownOption ("-" ++ String.singleton c)))
    | some s =>
      if s.wantsValue then
        match attached more with
        | some value => return { settings := ← settings.giveValue s value }
        | none => .ok { settings, awaiting := some s }
      else do letters scope (← settings.give scope s) more

/-- The reading after a long option. -/
def long (scope : Scope) (settings : Settings) (name : String) (value : Option String) :
    Except Stop Reading :=
  match Switch.ofLongName? scope name, value with
  | none, _ => .error (.usage (.unknownOption ("--" ++ name)))
  | some s, some value => return { settings := ← settings.giveValue s value }
  | some s, none =>
    if s.wantsValue then .ok { settings, awaiting := some s }
    else return { settings := ← settings.give scope s }

/-- The reading after one more argument. -/
def step (scope : Scope) (r : Reading) (arg : String) : Except Stop Reading :=
  if r.closed then return { r with settings := ← r.settings.giveOperand scope arg }
  else
    match r.awaiting, Shape.of arg with
    | some s, .plain => return { settings := ← r.settings.giveValue s arg }
    | some s, _ => .error (.usage (.valueMissing s))
    | none, .plain => return { settings := ← r.settings.giveOperand scope arg }
    | none, .separator => .ok { r with closed := true }
    | none, .long name value => long scope r.settings name value
    | none, .short letters => Reading.letters scope r.settings letters

/-- What is settled when there are no more arguments. -/
def finish (r : Reading) : Except Stop Settings :=
  match r.awaiting with
  | some s => .error (.usage (.valueMissing s))
  | none => .ok r.settings

/-- What the arguments of a level settle. -/
def settle (scope : Scope) (args : List String) : Except Stop Settings := do
  (← args.foldlM (step scope) {}).finish

end Reading

end ScriptFront.Command
