/-
Which words are keywords.

There are two dialects. In both, the reserved words are those of
`Keyword.word`; they differ in the class of `fun` alone, which is a keyword of
its own in one of them and counts as a counting loop in the other.

`Dialect.keyword?` decides by the first letter, for `f` and `t` by the second
as well, and compares only the one ending that is left: a word that is no
keyword is mostly turned away by its first letter.
-/
import ScriptFront.Token.Kind

set_option autoImplicit false

namespace ScriptFront

open Token (Keyword)

/-- What a script may choose about its keywords. -/
structure Dialect where
  -- Whether `fun` is a keyword of its own.
  distinctFun : Bool := false
deriving DecidableEq, Repr, Inhabited

namespace Dialect

/-- The keyword that `fun` stands for. -/
def funKeyword (d : Dialect) : Keyword :=
  if d.distinctFun then .function else .forLoop

/-- The keyword `k`, if `rest` is the ending that is left of its word. -/
def ending (rest : List Char) (tail : String) (k : Keyword) : Option Keyword :=
  if rest = tail.toList then some k else none

/-- The keyword a word stands for, if it is reserved. -/
def keyword? (d : Dialect) : List Char → Option Keyword
  | 'a' :: rest => ending rest "nd" .conjunction
  | 'c' :: rest => ending rest "lass" .classDecl
  | 'e' :: rest => ending rest "lse" .elseBranch
  | 'f' :: 'a' :: rest => ending rest "lse" .falseLiteral
  | 'f' :: 'o' :: rest => ending rest "r" .forLoop
  | 'f' :: 'u' :: rest => ending rest "n" d.funKeyword
  | 'i' :: rest => ending rest "f" .ifBranch
  | 'n' :: rest => ending rest "il" .nilLiteral
  | 'o' :: rest => ending rest "r" .disjunction
  | 'p' :: rest => ending rest "rint" .printStatement
  | 'r' :: rest => ending rest "eturn" .returnStatement
  | 's' :: rest => ending rest "uper" .superReference
  | 't' :: 'h' :: rest => ending rest "is" .thisReference
  | 't' :: 'r' :: rest => ending rest "ue" .trueLiteral
  | 'v' :: rest => ending rest "ar" .varDecl
  | 'w' :: rest => ending rest "hile" .whileLoop
  | _ => none

/-- The class of a word: its keyword if it is reserved, a name otherwise. -/
def wordKind (d : Dialect) (word : List Char) : Token.Kind :=
  match d.keyword? word with
  | some k => .keyword k
  | none => .identifier

end Dialect

end ScriptFront
