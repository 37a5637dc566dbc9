/-
The classes of tokens.

A class is a symbol, a keyword, or one of the five remaining classes. Symbols
and keywords carry the text they are written with, so the tables a scanner
needs are functions on these types and not lists beside them. Each class has a
stable name in capitals; no two classes share one (`Kind.ofName?_name`).
-/

set_option autoImplicit false

namespace ScriptFront.Token

/-! ## Symbols -/

/-- Punctuation and operators. -/
inductive Symbol where
  | leftParen
  | rightParen
  | leftBrace
  | rightBrace
  | comma
  | semicolon
  | dot
  | minus
  | plus
  | slash
  | star
  | bang
  | bangEqual
  | equal
  | equalEqual
  | greater
  | greaterEqual
  | less
  | lessEqual
deriving DecidableEq, Repr

namespace Symbol

/-- Every symbol. -/
def all : List Symbol :=
  [leftParen, rightParen, leftBrace, rightBrace, comma, semicolon, dot, minus, plus, slash, star,
    bang, bangEqual, equal, equalEqual, greater, greaterEqual, less, lessEqual]

/-- How the symbol is written. -/
def text : Symbol → String
  | leftParen => "("
  | rightParen => ")"
  | leftBrace => "\x7b"
  | rightBrace => "\x7d"
  | comma => ","
  | semicolon => ";"
  | dot => "."
  | minus => "-"
  | plus => "+"
  | slash => "/"
  | star => "*"
  | bang => "!"
  | bangEqual => "!="
  | equal => "="
  | equalEqual => "=="
  | greater => ">"
  | greaterEqual => ">="
  | less => "<"
  | lessEqual => "<="

/-- The name of the symbol in capitals. -/
def name : Symbol → String
  | leftParen => "LEFT_PAREN"
  | rightParen => "RIGHT_PAREN"
  | leftBrace => "LEFT_BRACE"
  | rightBrace => "RIGHT_BRACE"
  | comma => "COMMA"
  | semicolon => "SEMICOLON"
  | dot => "DOT"
  | minus => "MINUS"
  | plus => "PLUS"
  | slash => "SLASH"
  | star => "STAR"
  | bang => "BANG"
  | bangEqual => "BANG_EQUAL"
  | equal => "EQUAL"
  | equalEqual => "EQUAL_EQUAL"
  | greater => "GREATER"
  | greaterEqual => "GREATER_EQUAL"
  | less => "LESS"
  | lessEqual => "LESS_EQUAL"

theorem mem_all (s : Symbol) : s ∈ all := by
  cases s <;> decide

/-- The symbol that a single character is. -/
def ofChar? : Char → Option Symbol
  | '(' => some leftParen
  | ')' => some rightParen
  | '\x7b' => some leftBrace
  | '\x7d' => some rightBrace
  | ',' => some comma
  | ';' => some semicolon
  | '.' => some dot
  | '-' => some minus
  | '+' => some plus
  | '/' => some slash
  | '*' => some star
  | '!' => some bang
  | '=' => some equal
  | '>' => some greater
  | '<' => some less
  | _ => none

/-- The symbol that this one becomes when an equals sign follows. -/
def withEqual? : Symbol → Option Symbol
  | bang => some bangEqual
  | equal => some equalEqual
  | greater => some greaterEqual
  | less => some lessEqual
  | _ => none

/-- The character that is found to be a symbol is how that symbol is written. -/
theorem text_of_ofChar? {c : Char} {s : Symbol} (h : ofChar? c = some s) :
    s.text.toList = [c] := by
  unfold ofChar? at h
  split at h
  all_goals first
    | (cases h; rfl)
    | contradiction

/-- Each longer operator is written as the shorter one and an equals sign. -/
theorem text_of_withEqual? {s t : Symbol} (h : s.withEqual? = some t) :
    t.text.toList = s.text.toList ++ ['='] := by
  cases s
  all_goals first
    | (cases h; rfl)
    | contradiction

end Symbol

/-! ## Keywords -/

/-- Reserved words. -/
inductive Keyword where
  | conjunction
  | classDecl
  | elseBranch
  | falseLiteral
  | forLoop
  | function
  | ifBranch
  | nilLiteral
  | disjunction
  | printStatement
  | returnStatement
  | superReference
  | thisReference
  | trueLiteral
  | varDecl
  | whileLoop
deriving DecidableEq, Repr

namespace Keyword

/-- Every keyword. -/
def all : List Keyword :=
  [conjunction, classDecl, elseBranch, falseLiteral, forLoop, function, ifBranch, nilLiteral,
    disjunction, printStatement, returnStatement, superReference, thisReference, trueLiteral,
    varDecl, whileLoop]

/-- The reserved word itself. -/
def word : Keyword → String
  | conjunction => "and"
  | classDecl => "class"
  | elseBranch => "else"
  | falseLiteral => "false"
  | forLoop => "for"
  | function => "fun"
  | ifBranch => "if"
  | nilLiteral => "nil"
  | disjunction => "or"
  | printStatement => "print"
  | returnStatement => "return"
  | superReference => "super"
  | thisReference => "this"
  | trueLiteral => "true"
  | varDecl => "var"
  | whileLoop => "while"

/-- The name of the keyword in capitals. -/
def name : Keyword → String
  | conjunction => "AND"
  | classDecl => "CLASS"
  | elseBranch => "ELSE"
  | falseLiteral => "FALSE"
  | forLoop => "FOR"
  | function => "FUN"
  | ifBranch => "IF"
  | nilLiteral => "NIL"
  | disjunction => "OR"
  | printStatement => "PRINT"
  | returnStatement => "RETURN"
  | superReference => "SUPER"
  | thisReference => "THIS"
  | trueLiteral => "TRUE"
  | varDecl => "VAR"
  | whileLoop => "WHILE"

theorem mem_all (k : Keyword) : k ∈ all := by
  cases k <;> decide

end Keyword

/-! ## Classes -/

/-- The class of a token. -/
inductive Kind where
  | symbol (s : Symbol)
  | identifier
  | string
  | number
  | keyword (k : Keyword)
  -- A piece of the source that is no token.
  | error
  | eof
deriving DecidableEq, Repr

namespace Kind

/-- Every class, symbols first. -/
def all : List Kind :=
  Symbol.all.map symbol ++ [identifier, string, number] ++ Keyword.all.map keyword ++ [error, eof]

/-- The stable name of the class, in capitals. -/
def name : Kind → String
  | symbol s => s.name
  | identifier => "IDENTIFIER"
  | string => "STRING"
  | number => "NUMBER"
  | keyword k => k.name
  | error => "ERROR"
  | eof => "EOF"

/-- Whether the class is a reserved word. -/
def isKeyword : Kind → Bool
  | keyword _ => true
  | _ => false

/-- The class with the given name. -/
def ofName? (s : String) : Option Kind :=
  all.find? (·.name == s)

/-- A class is found again under its name, so no two classes share a name. -/
theorem ofName?_name (k : Kind) : ofName? k.name = some k := by
  cases k with
  | symbol s => cases s <;> decide
  | keyword k => cases k <;> decide
  | _ => decide

/-- A name that is found belongs to the class it finds. -/
theorem name_of_ofName? {s : String} {k : Kind} (h : ofName? s = some k) : k.name = s := by
  simpa using List.find?_some h

end Kind

end ScriptFront.Token
