/-
Tokens with the pieces of the source they were made of.

A token tells its offsets and its line, but not which text lies before it, and
offsets past the last one cannot be told apart. A `Cut` keeps the token together
with a division of the source into what had been read before, the trivia that
was passed over, the text of the token and what is left. Two conditions say that
the division is the right one: `Cut.IsToken` for a token that covers some text,
`Cut.IsEnd` for the end token.

One pull makes one cut (`Cursor.exists_cut`). What carries this from pull to pull
is that the place of a cursor is the place after the text it has passed, counted
from the start of the source (`Cursor.Passed`). `Cuts` puts the cuts of a whole
reading end to end, and `Cursor.exists_cuts` says that the tokens of a cursor are
the tokens of such a reading.
-/
import Mathlib.Data.List.Chain
import ScriptFront.Proofs.LongestReading
import ScriptFront.Proofs.Trivia

set_option autoImplicit false

namespace ScriptFront

open Token (Longest IsLayout)

/-! ## Lines and places -/

/-- The line that begins after `s`, counted from one; all lines past the last
number share it. -/
def lineAfter (s : List Char) : Nat := min Place.lastLine (1 + s.count '\n')

/-- Line numbers never decrease along a text. -/
theorem lineAfter_mono (s t : List Char) : lineAfter s ≤ lineAfter (s ++ t) := by
  simp only [lineAfter, List.count_append]
  omega

/-- A character that is no line feed leaves the line as it is. -/
theorem lineAfter_concat {c : Char} (s : List Char) (hc : c ≠ '\n') :
    lineAfter (s ++ [c]) = lineAfter s := by
  rw [lineAfter, List.count_append, List.count_singleton, beq_eq_false_iff_ne.mpr hc]
  rfl

namespace Place

/-- The offset behind a text counts its bytes. -/
theorem offset_start_through (s : List Char) : (start.through s).offset = byteLength s := by
  rw [offset_through, start, Nat.zero_add]

/-- The line behind a text counts its line feeds. -/
theorem line_start_through (s : List Char) : (start.through s).line = lineAfter s := by
  have hline := line_through (p := start) (by decide) s
  rw [hline, Nat.min_comm]
  rfl

end Place

/-! ## Cuts -/

/-- The token says that a string has no closing quote. -/
def Token.IsUnterminated (t : Token) : Prop := t.kind = .error ∧ t.lexeme = "unterminated string"

instance (t : Token) : Decidable t.IsUnterminated :=
  inferInstanceAs (Decidable (t.kind = .error ∧ t.lexeme = "unterminated string"))

/-- A token and a division of the source that shows where it lies. -/
structure Cut where
  before : List Char
  -- What was passed over to reach the token.
  gap : List Char
  text : List Char
  after : List Char
  token : Token

namespace Cut

/-- The source up to the token. -/
def start (k : Cut) : List Char := k.before ++ k.gap

/-- The source up to the end of the token. -/
def stop (k : Cut) : List Char := k.start ++ k.text

theorem stop_append_after (k : Cut) :
    k.stop ++ k.after = k.before ++ (k.gap ++ (k.text ++ k.after)) := by
  simp only [stop, start, List.append_assoc]

/-- The division of a token that covers some text: trivia is passed over, all of
it, and the token is the longest reading of what comes next. It counts on the
line it begins on, or on the last line if a string is not closed. -/
structure IsToken (d : Dialect) (k : Cut) : Prop where
  gap : Trivia k.gap (k.text ++ k.after)
  begins : ¬ BeginsTrivia (k.text ++ k.after)
  longest : Longest d k.token.kind k.token.lexeme k.text k.after
  span : k.token.span = Span.ofNat (byteLength k.start) (byteLength k.stop)
  -- The line is counted at the start, or at the end of the source.
  line : k.token.line = lineAfter (if k.token.IsUnterminated then k.stop else k.start)

/-- The division of the end token: trivia is passed over, and nothing is left. -/
structure IsEnd (k : Cut) : Prop where
  gap : Trivia k.gap []
  text : k.text = []
  after : k.after = []
  -- The token stands at the end of what has been read.
  token : k.token = { kind := .eof, lexeme := "", line := lineAfter k.start,
                      span := Span.ofNat (byteLength k.start) (byteLength k.start) }

/-- The division is the right one for its token. -/
def Sound (d : Dialect) (k : Cut) : Prop := k.IsEnd ∨ k.IsToken d

section Sound

variable {d : Dialect} {k : Cut}

/-- Between tokens, and before the end, there are only trivia. -/
theorem Sound.gap (h : k.Sound d) : Trivia k.gap (k.text ++ k.after) := by
  rcases h with hend | htoken
  · rw [hend.text, hend.after]
    exact hend.gap
  · exact htoken.gap

/-- The span of a token is told by where its text begins and ends. -/
theorem Sound.span (h : k.Sound d) :
    k.token.span = Span.ofNat (byteLength k.start) (byteLength k.stop) := by
  rcases h with hend | htoken
  · rw [hend.token, stop, hend.text, List.append_nil]
  · exact htoken.span

theorem IsToken.kind_ne_eof (h : k.IsToken d) : k.token.kind ≠ .eof :=
  h.longest.reading.kind_ne_eof

end Sound

def ofLexeme (before gap : List Char) (l : Lexeme) : Cut where
  before := before
  gap := gap
  text := l.text
  after := l.rest
  token := l.token (.through .start (before ++ gap)) (.through .start (before ++ gap ++ l.text))

def atEnd (before gap : List Char) : Cut where
  before := before
  gap := gap
  text := []
  after := []
  token := .atEnd (.through .start (before ++ gap))

end Cut

/-- A lexeme counts on the line it begins on, unless it lacks a quote. -/
theorem Lexeme.line_token {c : Char} (d : Dialect) (s before : List Char) (hc : ¬ IsLayout c) :
    let text := (ofHead d c s).text
    let token := (ofHead d c s).token (.through .start before) (.through .start (before ++ text))
    token.line = lineAfter (if token.IsUnterminated then before ++ text else before) := by
  intro text token
  rcases verdict_ofHead d s c with ⟨k, hk, hne, -⟩ | hv | ⟨hv, htext⟩
  · have hkind : ¬ token.IsUnterminated := fun h => hne ((token_of_ok hk _ _).1.symm.trans h.1)
    rw [if_neg hkind, ← Place.line_start_through]
    simp only [token, Lexeme.token, hk]
  · have hkind : token.IsUnterminated := by
      simp only [token, Lexeme.token, hv]
      exact ⟨rfl, rfl⟩
    rw [if_pos hkind, ← Place.line_start_through]
    simp only [token, Lexeme.token, hv]
  · -- The line is taken at the end here, but one character that is no line feed
    -- lies between.
    have hkind : ¬ token.IsUnterminated := by
      rintro ⟨-, hlex⟩
      simp only [token, Lexeme.token, hv] at hlex
      exact absurd hlex (by decide)
    have hfeed : c ≠ '\n' := fun h => hc (.inr (.inr (.inr h)))
    rw [if_neg hkind, ← lineAfter_concat before hfeed, ← htext, ← Place.line_start_through]
    simp only [token, Lexeme.token, hv, text]

theorem Lexeme.span_token (l : Lexeme) (p q : Place) :
    (l.token p q).span = Span.ofNat p.offset q.offset := by
  rw [token]
  split <;> rfl

namespace Cut

/-- Trivia up to the end of the source make the cut of the end token. -/
theorem isEnd_atEnd (before : List Char) {gap : List Char} (htrivia : Trivia gap []) :
    (atEnd before gap).IsEnd where
  gap := htrivia
  text := rfl
  after := rfl
  token := by
    simp only [atEnd, Token.atEnd, Place.offset_start_through, Place.line_start_through, start]

/-- **What is read behind trivia makes a sound cut**: it is the longest reading there, and
nothing of it belongs to the trivia. -/
theorem isToken_ofLexeme (d : Dialect) (before : List Char) {gap : List Char} {c : Char}
    {s : List Char} (htrivia : Trivia gap (c :: s)) (hbegins : ¬ BeginsTrivia (c :: s)) :
    (ofLexeme before gap (Lexeme.ofHead d c s)).IsToken d := by
  have hlayout : ¬ IsLayout c := fun hc => hbegins (.inl ⟨c, s, rfl, hc⟩)
  have hsrc := Lexeme.text_append_rest d c s
  refine ⟨?_, ?_, ?_, ?_, ?_⟩
  · rw [ofLexeme, hsrc]
    exact htrivia
  · rw [ofLexeme, hsrc]
    exact hbegins
  · exact Lexeme.longest_ofHead d s hlayout _ _
  · rw [ofLexeme, Lexeme.span_token, Place.offset_start_through, Place.offset_start_through]
    rfl
  · exact Lexeme.line_token d s (before ++ gap) hlayout

end Cut

/-! ## One pull -/

/-- The cursor has passed `before` and nothing else of the source. -/
structure Cursor.Passed (c : Cursor) (source before : List Char) : Prop where
  place : c.place = Place.start.through before
  whole : before ++ c.rest = source

theorem Cursor.passed_ofSource (d : Dialect) (source : String) :
    (Cursor.ofSource d source).Passed source.toList [] := ⟨rfl, rfl⟩

/-- **One pull makes one cut** of what is left, and leaves the cursor behind it. -/
theorem Cursor.exists_cut {c : Cursor} {source before : List Char} (h : c.Passed source before) :
    ∃ k : Cut, k.before = before ∧ k.gap ++ (k.text ++ k.after) = c.rest ∧
      k.Sound c.dialect ∧
      c.pull = (k.token, { c with place := .through .start k.stop, rest := k.after }) := by
  obtain ⟨gap, rest, hsplit, htrivia, hbegins⟩ := exists_trivia c.rest
  have hskip : skipTrivia c.place false c.rest = (.through .start (before ++ gap), rest) := by
    rw [hsplit, skipTrivia_append _ htrivia hbegins, h.place, Place.through_append]
  -- What is left after the trivia decides between the end and a lexeme.
  cases rest with
  | nil =>
    refine ⟨.atEnd before gap, rfl, hsplit.symm, .inl (Cut.isEnd_atEnd before htrivia), ?_⟩
    rw [pull, hskip, Cut.stop, Cut.start, Cut.atEnd, List.append_nil]
  | cons a s =>
    refine ⟨.ofLexeme before gap (Lexeme.ofHead c.dialect a s), rfl, ?_,
      .inr (Cut.isToken_ofLexeme c.dialect before htrivia hbegins), ?_⟩
    · rw [hsplit, Cut.ofLexeme, Lexeme.text_append_rest]
    · rw [pull, hskip]
      simp only [Cut.ofLexeme, Cut.stop, Cut.start, Place.through_append]

/-! ## A whole reading -/

/-- The cuts of one token after another, from what has been read before up to
the end of what is left. -/
inductive Cuts (d : Dialect) : List Char → List Char → List Cut → Prop where
  | last {k : Cut} : k.IsEnd → Cuts d k.before k.gap [k]
  | next {k : Cut} {cuts : List Cut} :
      k.IsToken d → Cuts d k.stop k.after cuts →
        Cuts d k.before (k.gap ++ (k.text ++ k.after)) (k :: cuts)

/-- The cuts follow one another in the source from the end of `before`, as far as
they go. -/
structure Succession (d : Dialect) (source before : List Char) (cuts : List Cut) : Prop where
  sound : ∀ k ∈ cuts, k.Sound d
  -- Each divides the source.
  whole : ∀ k ∈ cuts, k.stop ++ k.after = source
  -- The first one goes on from `before`.
  first : ∀ k ∈ cuts.head?, k.before = before
  -- Each other goes on where the one before it stops.
  next : cuts.IsChain fun a b => b.before = a.stop

namespace Succession

variable {d : Dialect} {source before : List Char} {cuts : List Cut}

/-- Nothing follows where there are no cuts. -/
theorem nil : Succession d source before [] where
  sound := List.forall_mem_nil _
  whole := List.forall_mem_nil _
  first := nofun
  next := List.isChain_nil

/-- A cut that ends where others go on comes before them. -/
theorem cons {k : Cut} (hsound : k.Sound d) (hwhole : k.stop ++ k.after = source)
    (h : Succession d source k.stop cuts) : Succession d source k.before (k :: cuts) where
  sound := List.forall_mem_cons.mpr ⟨hsound, h.sound⟩
  whole := List.forall_mem_cons.mpr ⟨hwhole, h.whole⟩
  first _ hk := congrArg Cut.before (Option.some.inj hk).symm
  next := List.isChain_cons.mpr ⟨h.first, h.next⟩

end Succession

/-- The cuts of a reading are a succession: each is sound, divides the source and begins where
the one before it ends. -/
theorem Cuts.succession {d : Dialect} {before rest : List Char} {cuts : List Cut}
    (h : Cuts d before rest cuts) : Succession d (before ++ rest) before cuts := by
  induction h with
  | @last k hend =>
    refine .cons (.inl hend) ?_ .nil
    rw [Cut.stop_append_after, hend.text, hend.after, List.append_nil, List.append_nil]
  | @next k ks htoken _ ih =>
    rw [← Cut.stop_append_after]
    exact .cons (.inr htoken) rfl ih

namespace Cursor

variable {c : Cursor}

/-- As long as the end has not been taken, the next token is the one that is pulled. -/
theorem next?_of_not_ended (h : c.ended = false) :
    c.next? = some (c.pull.1, { c.pull.2 with ended := c.pull.1.isEof }) := by
  rw [next?, h]
  rfl

/-- A cursor that has handed out the end token has no tokens left. -/
theorem tokens_of_ended (h : c.ended = true) : c.tokens = [] := by
  rw [tokens_eq, next?, if_pos h]

/-- The tokens that are left are the one pulled next and those after it. -/
theorem tokens_of_not_ended (h : c.ended = false) :
    c.tokens = c.pull.1 :: { c.pull.2 with ended := c.pull.1.isEof }.tokens := by
  rw [tokens_eq, next?_of_not_ended h]

/-- **The tokens of a cursor are cut from what it has left**, one after another.
The induction is on the length of what is left: every token takes some of it,
and after the end token there is nothing more to hand out. -/
theorem exists_cuts {source before : List Char} (h : c.Passed source before)
    (hended : c.ended = false) :
    ∃ cuts, Cuts c.dialect before c.rest cuts ∧ cuts.map Cut.token = c.tokens := by
  induction hn : c.rest.length using Nat.strongRecOn generalizing c before with
  | ind n ih =>
    subst hn
    obtain ⟨k, rfl, hrest, hk, hpull⟩ := exists_cut h
    rw [tokens_of_not_ended hended, hpull]
    rcases hk with hend | htoken
    · have heof : k.token.isEof = true := by
        rw [hend.token]
        rfl
      refine ⟨[k], ?_, ?_⟩
      · rw [← hrest, hend.text, hend.after, List.append_nil, List.append_nil]
        exact .last hend
      · rw [tokens_of_ended heof]
        rfl
    · have heof : k.token.isEof = false :=
        decide_eq_false htoken.kind_ne_eof
      have hshort : k.after.length < c.rest.length := by
        have := List.length_pos_iff.mpr htoken.longest.reading.ne_nil
        rw [← hrest, List.length_append, List.length_append]
        omega
      have hpassed : k.stop ++ k.after = source := by
        rw [← h.whole, ← hrest, Cut.stop_append_after]
      obtain ⟨cuts, hcuts, htokens⟩ := ih k.after.length hshort
        (c := { c with place := .through .start k.stop, rest := k.after, ended := k.token.isEof })
        ⟨rfl, hpassed⟩ heof rfl
      refine ⟨k :: cuts, ?_, ?_⟩
      · rw [← hrest]
        exact .next htoken hcuts
      · rw [List.map_cons, htokens]

end Cursor

/-- **The tokens of a source are the cuts of a reading of it**, from its start to its end. -/
theorem Token.exists_cuts (d : Dialect) (source : String) :
    ∃ cuts, Cuts d [] source.toList cuts ∧ cuts.map Cut.token = Token.ofSource d source :=
  Cursor.exists_cuts (Cursor.passed_ofSource d source) rfl

end ScriptFront
