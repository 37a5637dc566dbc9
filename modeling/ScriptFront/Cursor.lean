/-
Cursors: reading a source one token at a time.

A cursor is a place in a source together with the text that follows it. There
are two ways to read on. `Cursor.pull` always answers with a token: the end
token, once the text is used up, as often as it is asked. `Cursor.next?` hands
out the end token once and nothing after it; the cursor remembers that in
`ended`, which `pull` neither reads nor writes.

Every token but the end token takes at least one character from the text, so
reading a source to its end stops (`Cursor.remaining_lt`), and the list of all
tokens obeys one equation (`Cursor.tokens_eq`).
-/
import ScriptFront.Lexeme
import ScriptFront.Token.Basic

set_option autoImplicit false

namespace ScriptFront

/-! ## From a lexeme to its token -/

/-- The token of a lexeme that lies between two places. A token counts on the
line it begins on, an error on the line where it was noticed. -/
def Lexeme.token (l : Lexeme) (start stop : Place) : Token :=
  let span := Span.ofNat start.offset stop.offset
  match l.verdict with
  | .ok kind => { kind, lexeme := String.ofList l.text, line := start.line, span }
  | .error e => { kind := .error, lexeme := e.message, line := stop.line, span }

/-- The token that stands for the end of a source. -/
def Token.atEnd (p : Place) : Token :=
  { kind := .eof, lexeme := "", line := p.line, span := Span.ofNat p.offset p.offset }

@[simp] theorem Token.isEof_atEnd (p : Place) : (Token.atEnd p).isEof = true := rfl

/-! ## Cursors -/

/-- A place in a source, and what follows it. -/
structure Cursor where
  dialect : Dialect
  place : Place
  rest : List Char
  ended : Bool := false
deriving DecidableEq, Repr

namespace Cursor

/-- The cursor before the first character of a source. -/
def ofSource (d : Dialect) (source : String) : Cursor :=
  { dialect := d, place := .start, rest := source.toList }

/-- The next token, which is the end token for ever once the text is used up. -/
def pull (c : Cursor) : Token × Cursor :=
  match skipTrivia c.place false c.rest with
  | (p, []) => (Token.atEnd p, { c with place := p, rest := [] })
  | (p, a :: s) =>
    let lexeme := Lexeme.ofHead c.dialect a s
    let stop := p.through lexeme.text
    (lexeme.token p stop, { c with place := stop, rest := lexeme.rest })

/-- The next token, or nothing after the end token has been handed out. -/
def next? (c : Cursor) : Option (Token × Cursor) :=
  if c.ended then none
  else
    let (t, c') := c.pull
    some (t, { c' with ended := t.isEof })

/-! ## Reading to the end -/

/-- A bound on how often `next?` still answers. -/
def remaining (c : Cursor) : Nat := if c.ended then 0 else c.rest.length + 1

/-- A token that is pulled is the end token or leaves less text. -/
theorem isEof_or_length_lt (c : Cursor) :
    c.pull.1.isEof = true ∨ c.pull.2.rest.length < c.rest.length := by
  have suffix := (suffix_skipTrivia c.place false c.rest).length_le
  unfold pull
  split
  · exact Or.inl rfl
  · next p a s hs =>
    have shorter := Lexeme.length_rest_le c.dialect a s
    simp only [hs, List.length_cons] at suffix
    exact Or.inr (by simp only; omega)

/-- Each token that is handed out leaves less to hand out, which is why collecting ends. -/
theorem remaining_lt {c c' : Cursor} {t : Token} (h : c.next? = some (t, c')) :
    c'.remaining < c.remaining := by
  unfold next? at h
  split at h
  · contradiction
  · next notEnded =>
    simp only [Option.some.injEq, Prod.mk.injEq] at h
    obtain ⟨rfl, rfl⟩ := h
    rcases isEof_or_length_lt c with eof | shorter
    · simp [remaining, eof, notEnded]
    · simp only [remaining, notEnded, Bool.false_eq_true, if_false]
      split
      · omega
      · exact Nat.add_lt_add_right shorter 1

/-- Reads on until `next?` has no token left. The tokens are put after those
already found, and the cursor is the one reached. -/
def collect (c : Cursor) (found : Array Token) : Array Token × Cursor :=
  match h : c.next? with
  | none => (found, c)
  | some (t, c') =>
    have := remaining_lt h
    collect c' (found.push t)
termination_by c.remaining

/-- The tokens that `next?` still hands out, and the cursor after them. -/
def drain (c : Cursor) : List Token × Cursor :=
  let result := c.collect #[]
  (result.1.toList, result.2)

/-- The tokens that `next?` still hands out. -/
def tokens (c : Cursor) : List Token := c.drain.1

/-- Collecting adds the tokens that are left to those found, and ends where draining ends. -/
theorem collect_eq (c : Cursor) (found : Array Token) :
    c.collect found = (found ++ c.tokens.toArray, c.drain.2) := by
  induction hn : c.remaining using Nat.strongRecOn generalizing c found with
  | ind n ih =>
    subst hn
    unfold tokens drain
    rw [collect, collect]
    split
    · simp
    · next t c' h =>
      have smaller := remaining_lt h
      rw [ih _ smaller c' _ rfl, ih _ smaller c' _ rfl]
      simp

/-- Reading on hands out the next token, if any, and then the tokens after it. -/
theorem tokens_eq (c : Cursor) :
    c.tokens =
      match c.next? with
      | none => []
      | some (t, c') => t :: c'.tokens := by
  simp only [tokens, drain]
  rw [collect]
  split
  · next h => simp [h]
  · next t c' h => simp [h, collect_eq]

end Cursor

/-- The tokens of a source in the given dialect, the end token last. -/
def Token.ofSource (d : Dialect) (source : String) : List Token :=
  (Cursor.ofSource d source).tokens

end ScriptFront
