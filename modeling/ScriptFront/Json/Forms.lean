/-
The JSON forms of positions, dialects and classes.

An offset is a natural number. A span and a dialect are named values, or a
sequence of the same values in their order; other names are passed over, but no
known name may occur twice, and every name has to stand for a text. A class is
its name, alone or as the one name of a null value.
-/
import ScriptFront.Json.Basic
import ScriptFront.Span
import ScriptFront.Token.Basic
import ScriptFront.Token.Dialect

set_option autoImplicit false

namespace ScriptFront

namespace Json

/-- Named values with their names as texts; every name has to stand for one. -/
def named? (members : List (List Piece × Json)) : Option (List (String × Json)) :=
  members.mapM fun (name, value) => do return (String.ofList (← Piece.text? name), value)

/-- The value of a name among named values: `none` if it occurs twice, and
`some none` if it does not occur. -/
def lookup? (name : String) (members : List (String × Json)) : Option (Option Json) :=
  match members.filter (·.1 == name) with
  | [] => some none
  | [member] => some (some member.2)
  | _ => none

/-- The truth value that a value is. -/
def bool? : Json → Option Bool
  | bool b => some b
  | _ => none

end Json

/-! ## Offsets -/

/-- An offset is written as a number. -/
def Offset.toJson (o : Offset) : Json := .nat o.toNat

/-- An offset is a plain natural number within the limit. -/
def Offset.ofJson? (j : Json) : Option Offset := do
  let n ← j.nat?
  if n ≤ Offset.last then some (.ofNat n) else none

theorem Offset.ofJson?_toJson (o : Offset) : Offset.ofJson? o.toJson = some o := by
  simp [toJson, ofJson?, toNat_le_last]

/-! ## Spans -/

/-- A span is written as its two named offsets. -/
def Span.toJson (s : Span) : Json :=
  .record [("start", s.start.toJson), ("end", s.stop.toJson)]

/-- A span is its two offsets, named in any order or in sequence. -/
def Span.ofJson? : Json → Option Span
  | .array [a, b] => do return { start := ← Offset.ofJson? a, stop := ← Offset.ofJson? b }
  | .object members => do
    let members ← Json.named? members
    let a ← Json.lookup? "start" members
    let b ← Json.lookup? "end" members
    return { start := ← Offset.ofJson? (← a), stop := ← Offset.ofJson? (← b) }
  | _ => none

/-! ## Dialects -/

/-- A dialect is written as its one named choice. -/
def Dialect.toJson (d : Dialect) : Json :=
  .record [("distinct_fun", .bool d.distinctFun)]

/-- A dialect is its choice, named or in sequence; a choice left out is `false`. -/
def Dialect.ofJson? : Json → Option Dialect
  | .array [] => some {}
  | .array [a] => do return { distinctFun := ← a.bool? }
  | .object members => do
    match ← Json.lookup? "distinct_fun" (← Json.named? members) with
    | none => return {}
    | some a => return { distinctFun := ← a.bool? }
  | _ => none

/-! ## Classes and tokens -/

/-- A class is written as its name. -/
def Token.Kind.toJson (k : Kind) : Json := .text k.name

/-- A class is its name, or named values with that one name and a null value. -/
def Token.Kind.ofJson? : Json → Option Kind
  | .string s => do ofName? (String.ofList (← Json.Piece.text? s))
  | .object [(name, .null)] => do ofName? (String.ofList (← Json.Piece.text? name))
  | _ => none

theorem Token.Kind.ofJson?_toJson (k : Kind) : ofJson? k.toJson = some k := by
  simp [toJson, ofJson?, Json.text, Json.Piece.text?_map_char, ofName?_name]

/-- A token is written as its named parts. -/
def Token.toJson (t : Token) : Json :=
  .record [("kind", t.kind.toJson), ("lexeme", .text t.lexeme), ("line", .nat t.line),
    ("span", t.span.toJson)]

end ScriptFront
