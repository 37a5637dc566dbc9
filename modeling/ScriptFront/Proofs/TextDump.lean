/-
The text dump can be read back.

The dump escapes nothing: a string that spans lines is written over several
lines, and what stands in it may look like rows of the dump. `Dump.entries?`
reads it back all the same, because of two facts about lexemes
(`Token.IsLegible`): a string has a quote at its beginning and at its end and none
between, and no other lexeme has a quote of either kind. So the character after
the opening mark says where the lexeme ends.

The columns are no obstacle. A line number is the digits up to the next blank,
however many there are, and a bar stands for the line of the row before; the name
of a class has no blank in it. There is one lemma for each column, and
`readRow?_row` puts them together for a row. The dump as a whole is read row by
row (`entries?_text`), with the line of the last row in hand.
-/
import ScriptFront.Dump
import ScriptFront.Proofs.Cuts
import ScriptFront.Proofs.Decimal

set_option autoImplicit false

namespace ScriptFront

open Token (Kind IsNamePart)

/-! ## Reading a dump -/

namespace Dump

/-- What the dump tells of a token. -/
structure Entry where
  kind : Kind
  lexeme : String
  line : Nat
deriving DecidableEq, Repr

def Entry.ofToken (t : Token) : Entry := { kind := t.kind, lexeme := t.lexeme, line := t.line }

/-- The line number at the head of a row, after a row on the line `before`; a bar
stands for that line. -/
def readLine? (before : Option Nat) (s : List Char) : Option (Nat × List Char) :=
  match s.dropWhile (· == ' ') with
  | '|' :: ' ' :: rest => before.map (·, rest)
  | t =>
    match t.dropWhile Char.isDigit with
    | ' ' :: rest => some (Nat.ofDigitChars 10 (t.takeWhile Char.isDigit) 0, rest)
    | _ => none

/-- The class that is named at the head of a text, with the blanks after it. -/
def readKind? (s : List Char) : Option (Kind × List Char) := do
  let kind ← Kind.ofName? (String.ofList (s.takeWhile (· != ' ')))
  return (kind, (s.dropWhile (· != ' ')).dropWhile (· == ' '))

/-- The lexeme between its marks at the end of a row. A string goes on to its
second quote, whatever stands in it, and all others to the next mark. -/
def readLexeme? : List Char → Option (String × List Char)
  | '\'' :: '"' :: s =>
    match s.dropWhile (· != '"') with
    | '"' :: '\'' :: '\n' :: rest =>
      some (String.ofList ('"' :: (s.takeWhile (· != '"') ++ ['"'])), rest)
    | _ => none
  | '\'' :: s =>
    match s.dropWhile (· != '\'') with
    | '\'' :: '\n' :: rest => some (String.ofList (s.takeWhile (· != '\'')), rest)
    | _ => none
  | _ => none

/-- The row at the head of a dump. -/
def readRow? (before : Option Nat) (s : List Char) : Option (Entry × List Char) := do
  let (line, s) ← readLine? before s
  let (kind, s) ← readKind? s
  let (lexeme, s) ← readLexeme? s
  return ({ kind, lexeme, line }, s)

/-- The rows of a dump, of which there are not more than `fuel`. -/
def readRows? : Nat → Option Nat → List Char → Option (List Entry)
  | _, _, [] => some []
  | 0, _, _ => none
  | fuel + 1, before, s => do
    let (entry, rest) ← readRow? before s
    return entry :: (← readRows? fuel (some entry.line) rest)

/-- What a dump tells, row by row. A row takes at least one character. -/
def entries? (dump : String) : Option (List Entry) :=
  readRows? dump.toList.length none dump.toList

/-! ## One column -/

theorem readLine?_sameLine (n : Nat) (s : List Char) :
    readLine? (some n) (sameLine.toList ++ s) = some (n, s) := rfl

/-- The blanks of a padded column are dropped up to the next column. -/
theorem dropWhile_blanks {c : Char} (n : Nat) (hc : c ≠ ' ') (s : List Char) :
    (List.replicate n ' ' ++ c :: s).dropWhile (· == ' ') = c :: s := by
  have hblank : ∀ x ∈ List.replicate n ' ', (x == ' ') = true := fun x hx =>
    beq_iff_eq.mpr (List.eq_of_mem_replicate hx)
  rw [List.dropWhile_append_of_pos hblank, List.dropWhile_cons_of_neg]
  rwa [beq_iff_eq]

/-- The digits of a number in a column of any width are read as that number. -/
theorem readLine?_number (before : Option Nat) (width n : Nat) (s : List Char) :
    readLine? before ((Text.padLeft width (toString n)).toList ++ ' ' :: s) = some (n, s) := by
  obtain ⟨c, digits, hdigits, hc⟩ := exists_cons_toString n
  have hblank : c ≠ ' ' := by
    rintro rfl
    exact absurd hc (by decide)
  have hskip := dropWhile_blanks (width - (toString n).length) hblank (digits ++ ' ' :: s)
  obtain ⟨htake, hdrop⟩ :=
    span_of_stop (u := s) (isDigit_of_mem_toString (n := n)) (rfl : Char.isDigit ' ' = false)
  rw [← List.cons_append, ← hdigits] at hskip
  rw [readLine?, Text.toList_padLeft, List.append_assoc, hskip]
  split
  · -- A number does not begin with a bar.
    next rest hbar =>
    rw [hdigits, List.cons_append] at hbar
    obtain ⟨rfl, -⟩ := List.cons.inj hbar
    exact absurd hc (by decide)
  · rw [htake, hdrop, ofDigitChars_toString]
    rfl

/-- The name of a kind has no blank in it, so the first blank ends the column. -/
theorem name_no_blank (k : Kind) : ' ' ∉ k.name.toList := by
  cases k with
  | symbol b => cases b <;> decide
  | keyword k => cases k <;> decide
  | _ => decide

/-- A kind is read back from its column, whatever the width. -/
theorem readKind?_name (k : Kind) (width : Nat) {c : Char} (hc : c ≠ ' ') (s : List Char) :
    readKind? ((Text.padRight width k.name).toList ++ ' ' :: c :: s) = some (k, c :: s) := by
  -- The blanks behind the name are those of the column and one more.
  have hblanks : (Text.padRight width k.name).toList ++ ' ' :: c :: s =
      k.name.toList ++ ' ' :: (List.replicate (width - k.name.length) ' ' ++ c :: s) := by
    rw [Text.toList_padRight, List.append_assoc, List.append_cons, ← List.replicate_succ',
      List.replicate_succ, List.cons_append]
  have hname : ∀ x ∈ k.name.toList, (x != ' ') = true := fun x hx =>
    bne_iff_ne.mpr fun h => name_no_blank k (h ▸ hx)
  obtain ⟨htake, hdrop⟩ := span_of_stop (a := ' ')
    (u := List.replicate (width - k.name.length) ' ' ++ c :: s) hname rfl
  rw [readKind?, hblanks, htake, hdrop, List.dropWhile_cons_of_pos rfl, dropWhile_blanks _ hc,
    String.ofList_toList, Kind.ofName?_name]
  rfl

/-! ## Lexemes -/

end Dump

/-- The lexeme shows where it ends: it is a string, with quotes at both ends and
none between, or it has no quote of either kind. -/
def Token.IsLegible (lexeme : List Char) : Prop :=
  (∃ body, '"' ∉ body ∧ lexeme = '"' :: (body ++ ['"'])) ∨ ('"' ∉ lexeme ∧ '\'' ∉ lexeme)

namespace Dump

/-- A legible lexeme is read back from between its quotes. -/
theorem readLexeme?_of_isLegible {lexeme : String} (h : Token.IsLegible lexeme.toList)
    (s : List Char) :
    readLexeme? ('\'' :: (lexeme.toList ++ '\'' :: '\n' :: s)) = some (lexeme, s) := by
  rcases h with ⟨body, hbody, hlexeme⟩ | ⟨hquote, hmark⟩
  · obtain ⟨htake, hdrop⟩ := Lexeme.span_of_quote (u := '\'' :: '\n' :: s) hbody
    rw [hlexeme, List.cons_append, List.append_assoc, List.singleton_append, readLexeme?, hdrop,
      htake, ← hlexeme, String.ofList_toList]
    rfl
  · have hall : ∀ x ∈ lexeme.toList, (x != '\'') = true := fun x hx =>
      bne_iff_ne.mpr fun h => hmark (h ▸ hx)
    obtain ⟨htake, hdrop⟩ := span_of_stop (u := '\n' :: s) hall (rfl : ('\'' != '\'') = false)
    -- What comes after the opening mark is no quote.
    have hplain : ∀ u, lexeme.toList ++ '\'' :: '\n' :: s ≠ '"' :: u := by
      intro u hu
      cases hlexeme : lexeme.toList with
      | nil =>
        rw [hlexeme] at hu
        exact absurd (List.cons.inj hu).1 (by decide)
      | cons c w =>
        rw [hlexeme] at hu hquote
        obtain rfl := (List.cons.inj hu).1
        exact hquote List.mem_cons_self
    rw [readLexeme?, hdrop, htake, String.ofList_toList]
    · rfl
    · exact hplain

end Dump

/-! ## The lexemes of a source -/

namespace Token

/-- A text of name characters and points has no quote and no newline. -/
theorem isLegible_of_forall_mem {w : List Char} (h : ∀ c ∈ w, IsNamePart c ∨ c = '.') :
    IsLegible w := by
  refine .inr ⟨fun hquote => ?_, fun hmark => ?_⟩
  · exact absurd (h _ hquote) (by decide)
  · exact absurd (h _ hmark) (by decide)

/-- The spelling of a kind can be read between quotes. -/
theorem Spelling.isLegible {d : Dialect} {k : Kind} {w : List Char} (h : Spelling d k w) :
    IsLegible w := by
  cases h with
  | keyword hword _ | identifier hword _ =>
    exact isLegible_of_forall_mem fun c hc => .inl (hword.forall_mem c hc)
  | number hnum => exact isLegible_of_forall_mem fun c hc => (hnum.forall_mem c hc).imp_left .inr
  | string hbody => exact .inl ⟨_, hbody, rfl⟩
  | symbol b =>
    refine .inr ?_
    cases b <;> decide

/-- The lexeme of any reading can be read between quotes; that of an error is its message. -/
theorem Reading.isLegible {d : Dialect} {k : Kind} {lexeme : String} {text after : List Char}
    (h : Reading d k lexeme text after) : IsLegible lexeme.toList := by
  cases h with
  | token hspell =>
    rw [String.toList_ofList]
    exact hspell.isLegible
  | unterminated _ | unexpected _ _ => exact .inr (by decide)

/-- The lexeme of every token of a source can be read back from its row. -/
theorem isLegible_of_mem {d : Dialect} {source : String} {t : Token}
    (ht : t ∈ Token.ofSource d source) : IsLegible t.lexeme.toList := by
  obtain ⟨cuts, hcuts, htokens⟩ := Token.exists_cuts d source
  rw [← htokens] at ht
  obtain ⟨k, hk, rfl⟩ := List.mem_map.mp ht
  rcases hcuts.succession.sound k hk with hend | htoken
  · have hempty : IsLegible "".toList := .inr (by decide)
    rw [hend.token]
    exact hempty
  · exact htoken.longest.reading.isLegible

end Token

namespace Dump

/-! ## Rows -/

/-- A row is read back, with the line it shows or that of the row before. -/
theorem readRow?_row (before : Option Nat) {t : Token} (h : Token.IsLegible t.lexeme.toList)
    (s : List Char) : readRow? before ((row before t).toList ++ s) = some (Entry.ofToken t, s) := by
  have hmark : '\'' ≠ ' ' := by decide
  have hkind := readKind?_name t.kind Token.kindWidth hmark
    (t.lexeme.toList ++ '\'' :: '\n' :: s)
  have hdescription : ((t.description ++ "\n").toList ++ s) =
      (Text.padRight Token.kindWidth t.kind.name).toList ++
        ' ' :: '\'' :: (t.lexeme.toList ++ '\'' :: '\n' :: s) := by
    simp only [Token.description, String.toList_append, List.append_assoc]
    rfl
  have hline : readLine? before ((row before t).toList ++ s) =
      some (t.line, (t.description ++ "\n").toList ++ s) := by
    rw [row]
    split
    · next hsame =>
      rw [hsame, String.append_assoc, String.toList_append, List.append_assoc]
      exact readLine?_sameLine t.line _
    · have hnumber : (t.row ++ "\n").toList ++ s =
          (Text.padLeft Token.lineWidth (toString t.line)).toList ++
            ' ' :: ((t.description ++ "\n").toList ++ s) := by
        simp only [Token.row, String.toList_append, List.append_assoc]
        rfl
      rw [hnumber]
      exact readLine?_number before _ _ _
  rw [readRow?, hline, hdescription]
  simp only [Option.bind_eq_bind, Option.bind_some, hkind, readLexeme?_of_isLegible h]
  rfl

/-- The rows of a dump that goes on after the line `before`. -/
def rows (before : Option Nat) (tokens : List Token) : List Char :=
  (String.join (List.zipWith row (before :: tokens.map (some ·.line)) tokens)).toList

theorem rows_cons (before : Option Nat) (t : Token) (tokens : List Token) :
    rows before (t :: tokens) = (row before t).toList ++ rows (some t.line) tokens := by
  rw [rows, List.map_cons, List.zipWith_cons_cons, String.join_cons, String.toList_append]
  rfl

theorem row_ne_nil (before : Option Nat) (t : Token) : (row before t).toList ≠ [] := by
  rw [row]
  split
  · rw [String.toList_append]
    exact List.append_ne_nil_of_right_ne_nil _ (List.cons_ne_nil _ _)
  · rw [String.toList_append]
    exact List.append_ne_nil_of_right_ne_nil _ (List.cons_ne_nil _ _)

/-- Rows are read back to the entries they were written for; fuel for as many characters as
there are is enough, as no row is empty. -/
theorem readRows?_rows {fuel : Nat} {before : Option Nat} {tokens : List Token}
    (hfuel : (rows before tokens).length ≤ fuel)
    (h : ∀ t ∈ tokens, Token.IsLegible t.lexeme.toList) :
    readRows? fuel before (rows before tokens) = some (tokens.map Entry.ofToken) := by
  induction tokens generalizing fuel before with
  | nil =>
    have hrows : rows before [] = [] := rfl
    rw [hrows, readRows?]
    rfl
  | cons t tokens ih =>
    obtain ⟨ht, htokens⟩ := List.forall_mem_cons.mp h
    have hrow : 0 < (row before t).toList.length := List.length_pos_iff.mpr (row_ne_nil before t)
    rw [rows_cons, List.length_append] at hfuel
    cases fuel with
    | zero => omega
    | succ fuel =>
      rw [rows_cons, readRows?, readRow?_row before ht]
      · simp only [Option.bind_eq_bind, Option.bind_some]
        have hrest : readRows? fuel (some t.line) (rows (some t.line) tokens) =
            some (tokens.map Entry.ofToken) := ih (by omega) htokens
        rw [Entry.ofToken, hrest]
        rfl
      · exact List.append_ne_nil_of_left_ne_nil (row_ne_nil before t) _

/-- A dump of legible tokens tells all of them, each with its class, its lexeme and
its line. -/
theorem entries?_text {tokens : List Token}
    (h : ∀ t ∈ tokens, Token.IsLegible t.lexeme.toList) :
    entries? (text tokens) = some (tokens.map Entry.ofToken) :=
  readRows?_rows le_rfl h

/-! ## What a dump depends on -/

/-- A row depends on its token only through the entry. -/
theorem row_congr {t t' : Token} (h : Entry.ofToken t = Entry.ofToken t') (before : Option Nat) :
    row before t = row before t' := by
  rw [Entry.ofToken, Entry.ofToken, Entry.mk.injEq] at h
  obtain ⟨hkind, hlexeme, hline⟩ := h
  simp only [row, Token.row, Token.description, hkind, hlexeme, hline]

/-- A dump depends on its tokens only through their entries. -/
theorem rows_congr {before : Option Nat} {tokens tokens' : List Token}
    (h : tokens.map Entry.ofToken = tokens'.map Entry.ofToken) :
    rows before tokens = rows before tokens' := by
  induction tokens generalizing before tokens' with
  | nil => rw [List.map_eq_nil_iff.mp h.symm]
  | cons t tokens ih =>
    obtain ⟨t', tokens', rfl⟩ := List.exists_cons_of_ne_nil
      fun hnil : tokens' = [] => List.cons_ne_nil _ _ (h.trans (by rw [hnil, List.map_nil]))
    obtain ⟨ht, htokens⟩ := List.cons.inj h
    have hline : t.line = t'.line := congrArg Entry.line ht
    rw [rows_cons, rows_cons, row_congr ht, ih htokens, hline]

/-- **The text dump of a source loses nothing** but where its tokens lie: it is read
back as the classes, lexemes and lines of all tokens, in order. So two sources,
each in its dialect, have the same dump if and only if they have the same tokens
up to their spans. -/
theorem text_lossless :
    (∀ (d : Dialect) (source : String), entries? (text (Token.ofSource d source)) =
      some ((Token.ofSource d source).map Entry.ofToken)) ∧
    ∀ (d d' : Dialect) (source source' : String),
      text (Token.ofSource d source) = text (Token.ofSource d' source') ↔
        (Token.ofSource d source).map Entry.ofToken =
          (Token.ofSource d' source').map Entry.ofToken := by
  have hread : ∀ (d : Dialect) (source : String), entries? (text (Token.ofSource d source)) =
      some ((Token.ofSource d source).map Entry.ofToken) := fun d source =>
    entries?_text fun _ ht => Token.isLegible_of_mem ht
  refine ⟨hread, fun d d' source source' => ⟨fun hsame => ?_, fun hsame => ?_⟩⟩
  · rw [← Option.some_inj, ← hread, ← hread, hsame]
  · exact String.toList_injective (rows_congr hsame)

/-- A string that looks like rows of the dump, on a line number of five digits. -/
example :
    let t : Token := ⟨.string, "\"\n   | EOF           '\"", 12345, .ofNat 0 4⟩
    entries? (text [t, t]) = some [.ofToken t, .ofToken t] := by
  decide +kernel

end Dump

end ScriptFront
