/-
Which log records are shown.

A filter is a list of rules. A rule has a limit, which is the last level it lets
pass, and it may have a target: then it speaks only about records whose target
begins with it. Of the rules that speak about a record the one with the longest
target decides, and of equally long ones the last; where none speaks, nothing is
shown. A filter may also ask for a phrase in the message.

Filters are written as a list between commas. A piece is a limit, a target, or a
target and a limit with an equals sign between; a bare target lets everything
pass. A limit may be written in capitals or small letters. The phrase, if any,
follows a slash at the end. Pieces that cannot be read are left out.
-/
import ScriptFront.Log.Record
import ScriptFront.Text.Split

set_option autoImplicit false

namespace ScriptFront.Log

/-! ## Limits -/

/-- The last level that passes; `none` if no level does. -/
abbrev Limit := Option Level

/-- Whether a level passes a limit. -/
def Limit.admits (limit : Limit) (l : Level) : Bool :=
  match limit with
  | none => false
  | some last => l.rank ≤ last.rank

/-- The limit that lets everything pass. -/
def Limit.everything : Limit := some .trace

/-- The limit of a name, whatever its letters' case. -/
def Limit.ofName? (name : String) : Option Limit :=
  let capitals := name.map Char.toUpper
  if capitals = "OFF" then some none
  else (Level.all.find? (·.name = capitals)).map some

/-! ## Filters -/

/-- A limit for records whose target begins in a certain way. -/
structure Rule where
  -- How the targets begin; `none` for all targets.
  target : Option String
  -- The last level that passes.
  limit : Limit
deriving DecidableEq, Repr

namespace Rule

/-- Whether the rule speaks about a target. -/
def concerns (r : Rule) (target : String) : Bool :=
  match r.target with
  | none => true
  | some start => start.toList.isPrefixOf target.toList

/-- How closely the rule describes its targets, in bytes. -/
def weight (r : Rule) : Nat := (r.target.getD "").utf8ByteSize

/-- Of two rules the one that decides, the second if they weigh the same. -/
def closer (before : Option Rule) (r : Rule) : Option Rule :=
  match before with
  | none => some r
  | some b => if b.weight ≤ r.weight then some r else some b

end Rule

/-- Rules for records, and a phrase that their messages must hold. -/
structure Filter where
  rules : List Rule
  -- The phrase, if one is asked for.
  phrase : Option String := none
deriving DecidableEq, Repr

namespace Filter

/-- The rule that decides about a target. -/
def deciding? (f : Filter) (target : String) : Option Rule :=
  (f.rules.filter (·.concerns target)).foldl Rule.closer none

/-- Whether a record is shown. -/
def admits (f : Filter) (r : Record) : Bool :=
  (match f.deciding? r.target with
  | some rule => rule.limit.admits r.level
  | none => false)
  && (match f.phrase with
  | some phrase => Text.occurs phrase.toList r.message.toList
  | none => true)

/-- The filter that shows nothing. -/
def nothing : Filter := { rules := [] }

/-- The filter that shows all records up to a level, whatever their target. -/
def upTo (l : Level) : Filter := { rules := [{ target := none, limit := some l }] }

/-! ## Reading a filter -/

/-- The rule of one piece, or the part of it that cannot be read. -/
def readRule (piece : String) : Except String Rule :=
  match Text.pieces '=' piece with
  | [word] =>
    match Limit.ofName? word with
    | some limit => .ok { target := none, limit }
    | none => .ok { target := some word, limit := .everything }
  | [target, word] =>
    let word := Text.trimmed word
    if word = "" then .ok { target := some target, limit := .everything }
    else
      match Limit.ofName? word with
      | some limit => .ok { target := some target, limit }
      | none => .error ("invalid logging spec \x27" ++ word ++ "\x27")
  | _ => .error ("invalid logging spec \x27" ++ piece ++ "\x27")

/-- The rules with one more, which takes the place of a rule for the same target. -/
def addRule (rules : List Rule) (r : Rule) : List Rule :=
  if rules.any (·.target = r.target) then
    rules.map fun old => if old.target = r.target then r else old
  else rules ++ [r]

/-- The rules of pieces that are put after given ones, and what was not read. -/
def readRules (rules : List Rule) : List String → List Rule × List String
  | [] => (rules, [])
  | piece :: more =>
    if piece = "" then readRules rules more
    else
      match readRule piece with
      | .ok r => readRules (addRule rules r) more
      | .error complaint =>
        let (rules, complaints) := readRules rules more
        (rules, complaint :: complaints)

/-- The filter of a list of pieces; where no rule is given, errors pass. -/
def ofPieces (list : String) (phrase : Option String) : Filter × List String :=
  let (rules, complaints) := readRules [] ((Text.pieces ',' list).map Text.trimmed)
  ({ rules := if rules.isEmpty then (upTo .error).rules else rules, phrase }, complaints)

/-- The filter that a text asks for, and a complaint for each part left out. -/
def read (s : String) : Filter × List String :=
  match Text.pieces '/' s with
  | [list] => ofPieces list none
  | [list, phrase] => ofPieces list (some phrase)
  | _ => (upTo .error, ["invalid logging spec \x27" ++ s ++ "\x27 (too many \x27/\x27s)"])

/-- A limit for everything, a closer rule for one target, and a piece left out. -/
example :
    read "Warn, ember_cli=debug,x=loud" =
      ({ rules := [⟨none, some .warn⟩, ⟨some "ember_cli", some .debug⟩] },
        ["invalid logging spec \x27loud\x27"]) := by
  decide +kernel

end Filter

end ScriptFront.Log
