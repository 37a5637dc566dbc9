/-
Tokens survive another layout.

A list of tokens can be written out again with any layout and any comments, as
long as each token is followed by layout or by nothing (`Printed`). The tokens of
the text so written are the same ones (`Token.ofSource_printed`): each lexeme
alone is read as the token it was taken from (`Token.Spelling.longest`), and the
layout behind it keeps it from being read together with its neighbour.

Where the tokens lie, and what else lay between them in the first text, has no
part in this. So the induction is on the way the tokens are written, over any
reading of what is written, and it speaks of classes and lexemes alone.
-/
import ScriptFront.Proofs.OneReading

set_option autoImplicit false

namespace ScriptFront

open Token (IsLayout Spelling Reading Longest)

/-! ## Ways to write tokens -/

/-- Whether the token stands for a text that is written in the source, and that
is neither an error nor the end. -/
def Token.isWritten (t : Token) : Bool := !t.isError && !t.isEof

/-- What a token says, wherever it stands. -/
def Token.content (t : Token) : Token.Kind × String := (t.kind, t.lexeme)

/-- Layout and whole comments: `(space | tab | CR | LF | // [^\n]* LF)*`. -/
inductive Spacing : List Char → Prop where
  | nil : Spacing []
  | layout {c : Char} {s : List Char} : IsLayout c → Spacing s → Spacing (c :: s)
  | comment {body s : List Char} :
      '\n' ∉ body → Spacing s → Spacing ('/' :: '/' :: (body ++ '\n' :: s))

/-- The text is the lexemes of the tokens in their order. Behind each of them
there is a spacing that begins with layout; only the last one may end the text. -/
inductive Printed : List Token → List Char → Prop where
  | none : Printed [] []
  | last (t : Token) : Printed [t] t.lexeme.toList
  | next {c : Char} {gap s : List Char} {tokens : List Token} (t : Token) :
      IsLayout c → Spacing gap → Printed tokens s →
        Printed (t :: tokens) (t.lexeme.toList ++ c :: (gap ++ s))

theorem Spacing.trivia {gap : List Char} (h : Spacing gap) (after : List Char) :
    Trivia gap after := by
  induction h with
  | nil => exact .nil
  | layout hc _ ih => exact .layout hc ih
  | comment hbody _ ih => exact .comment hbody (.inr ⟨_, rfl⟩) (.layout (.inr (.inr (.inr rfl))) ih)

/-! ## One token alone -/

namespace Token.Spelling

variable {d : Dialect} {k : Kind} {w : List Char}

theorem not_isLayout {c : Char} {t : List Char} (h : Spelling d k (c :: t)) : ¬ IsLayout c := by
  rintro hc
  rcases h.head rfl with ⟨hname, -⟩ | ⟨hdigit, -⟩ | ⟨rfl, -⟩ | ⟨a, -, ha, -⟩
  · exact IsNamePart.not_isLayout (.inl hname) hc
  · exact IsNamePart.not_isLayout (.inr hdigit) hc
  · exact absurd hc (by decide)
  · exact (Symbol.ofChar?_separate ha).2.2.2 hc

/-- The two slashes of a comment begin no token: a slash is a token of its own. -/
theorem not_beginsTrivia (h : Spelling d k w) : ¬ BeginsTrivia w := by
  rintro (⟨c, t, rfl, hc⟩ | ⟨t, rfl⟩)
  · exact h.not_isLayout hc
  · rcases h.head rfl with ⟨hname, -⟩ | ⟨hdigit, -⟩ | ⟨hquote, -⟩ | ⟨a, b, ha, -, hrest⟩
    · exact absurd hname (by decide)
    · exact absurd hdigit (by decide)
    · exact absurd hquote (by decide)
    · rcases hrest with ⟨hnil, -⟩ | ⟨heq, -⟩
      · exact List.cons_ne_nil _ _ hnil
      · exact absurd (List.cons.inj heq).1 (by decide)

/-- A text that is a token of a class is read as this token and no other. -/
theorem longest (h : Spelling d k w) : Longest d k (String.ofList w) w [] := by
  obtain ⟨c, t, rfl⟩ := List.exists_cons_of_ne_nil h.ne_nil
  have hlongest := Lexeme.longest_ofHead d t h.not_isLayout .start .start
  have hsrc := Lexeme.text_append_rest d c t
  -- The longest reading is at least as long as this one, which is the whole text.
  rcases hlongest.longest _ _ (c :: t) [] (by rw [hsrc, List.append_nil]) (.token h) with
    hlt | ⟨hkind, hlexeme, htext⟩
  · rw [← hsrc, List.length_append] at hlt
    omega
  · rw [← htext] at hsrc
    rw [← hkind, ← hlexeme, ← htext, List.append_right_eq_self.mp hsrc] at hlongest
    exact hlongest

end Token.Spelling

/-- What is written in a source is a text of its class. -/
theorem Token.spelling_of_mem {d : Dialect} {source : String} {t : Token}
    (ht : t ∈ Token.ofSource d source) (hwritten : t.isWritten = true) :
    Spelling d t.kind t.lexeme.toList := by
  obtain ⟨cuts, hcuts, htokens⟩ := Token.exists_cuts d source
  rw [← htokens] at ht
  obtain ⟨k, hk, rfl⟩ := List.mem_map.mp ht
  rw [isWritten, Bool.and_eq_true, Bool.not_eq_true', Bool.not_eq_true'] at hwritten
  have herror : k.token.kind ≠ .error := of_decide_eq_false hwritten.1
  rcases hcuts.succession.sound k hk with hend | htoken
  · exact absurd (congrArg Token.kind hend.token) (of_decide_eq_false hwritten.2)
  · have hread := htoken.longest.reading
    rw [hread.lexeme_eq herror, String.toList_ofList]
    exact hread.spelling_of_ne_error herror

/-! ## Tokens and what lies between them -/

theorem Cuts.contents_moved {ahead : List Char} {cuts cuts' : List Cut}
    (h : List.Forall₂ (Cut.Moved ahead) cuts cuts') :
    cuts'.map (·.token.content) = cuts.map (·.token.content) := by
  induction h with
  | nil => rfl
  | cons hmoved _ ih =>
    rw [List.map_cons, List.map_cons, ih, Token.content, hmoved.kind, hmoved.lexeme, Token.content]

/-- What is read behind trivia is what is read of the rest alone. -/
theorem Cuts.exists_behind {d : Dialect} {before gap rest : List Char} {cuts : List Cut}
    (h : Cuts d before (gap ++ rest) cuts) (hgap : Trivia gap rest) :
    ∃ cuts', Cuts d (before ++ gap) rest cuts' ∧
      cuts.map (·.token.content) = cuts'.map (·.token.content) := by
  obtain ⟨cuts', h'⟩ := Cuts.exist d (before ++ gap) rest
  have hahead : before ++ gap = [] ++ (before ++ gap) := rfl
  exact ⟨cuts', h', Cuts.contents_moved (h'.moved h hgap hahead)⟩

/-- A token that nothing follows, or layout, is read first, and then the rest. -/
theorem Cuts.contents_token {d : Dialect} {before after : List Char} {cuts : List Cut} {t : Token}
    (ht : Spelling d t.kind t.lexeme.toList)
    (hafter : after = [] ∨ ∃ c s, after = c :: s ∧ IsLayout c)
    (h : Cuts d before (t.lexeme.toList ++ after) cuts) :
    ∃ before' cuts', Cuts d before' after cuts' ∧
      cuts.map (·.token.content) = t.content :: cuts'.map (·.token.content) := by
  have hlongest : Longest d t.kind t.lexeme t.lexeme.toList after ∧
      ¬ BeginsTrivia (t.lexeme.toList ++ after) := by
    have halone := ht.longest
    rw [String.ofList_toList] at halone
    rcases hafter with rfl | ⟨c, s, rfl, hc⟩
    · rw [List.append_nil]
      exact ⟨halone, ht.not_beginsTrivia⟩
    · have hclosed : ¬ Token.IsOpen t.kind t.lexeme := fun h =>
        ht.kind_ne.1 h.1
      exact ⟨halone.append_layout hclosed hc s,
        fun hbegins => ht.not_beginsTrivia (hbegins.of_append_layout ht.ne_nil hc)⟩
  obtain ⟨k, ks, rfl, -, -, -, hkind, hlexeme, htail⟩ :=
    h.cases_token rfl .nil hlongest.2 hlongest.1
  refine ⟨k.stop, ks, htail, ?_⟩
  rw [List.map_cons, Token.content, hkind, hlexeme, Token.content]

theorem Cuts.contents_end {d : Dialect} {before : List Char} {cuts : List Cut}
    (h : Cuts d before [] cuts) : cuts.map (·.token.content) = [(.eof, "")] := by
  obtain ⟨k, rfl, hend, -, -⟩ := h.cases_end .nil
  rw [List.map_singleton, hend.token]
  rfl

/-- The tokens that are written are read again, and then comes the end. The
induction is on the way they are written. -/
theorem Printed.contents_eq {d : Dialect} {before text : List Char} {tokens : List Token}
    {cuts : List Cut} (h : Printed tokens text)
    (htokens : ∀ t ∈ tokens, Spelling d t.kind t.lexeme.toList) (hcuts : Cuts d before text cuts) :
    cuts.map (·.token.content) = tokens.map Token.content ++ [(.eof, "")] := by
  induction h generalizing before cuts with
  | none => exact hcuts.contents_end
  | last t =>
    have ht := htokens t List.mem_cons_self
    rw [← List.append_nil t.lexeme.toList] at hcuts
    obtain ⟨before', cuts', htail, hcontents⟩ := hcuts.contents_token ht (.inl rfl)
    rw [hcontents, htail.contents_end]
    rfl
  | @next c gap s tokens t hc hgap _ ih =>
    obtain ⟨ht, htokens⟩ := List.forall_mem_cons.mp htokens
    obtain ⟨before', cuts', htail, hcontents⟩ := hcuts.contents_token ht (.inr ⟨c, _, rfl, hc⟩)
    have hbehind : Cuts d before' (c :: gap ++ s) cuts' := htail
    obtain ⟨cuts'', hrest, hsame⟩ := hbehind.exists_behind (.layout hc (hgap.trivia s))
    rw [hcontents, hsame, ih htokens hrest]
    rfl

/-- **Writing tokens and reading them again changes nothing but the layout.**
Take the tokens of a source that are neither errors nor the end, and write them
with other spacing: what is read are the same classes and lexemes, and no error. -/
theorem Token.ofSource_printed (d : Dialect) (source : String) {lead text : List Char}
    (hlead : Spacing lead)
    (htext : Printed ((Token.ofSource d source).filter Token.isWritten) text) :
    (Token.ofSource d (String.ofList (lead ++ text))).map Token.content =
      ((Token.ofSource d source).filter Token.isWritten).map Token.content ++ [(.eof, "")] ∧
    ∀ t ∈ Token.ofSource d (String.ofList (lead ++ text)), t.isError = false := by
  have hspell : ∀ t ∈ (Token.ofSource d source).filter Token.isWritten,
      Spelling d t.kind t.lexeme.toList := by
    intro t ht
    obtain ⟨hmem, hwritten⟩ := List.mem_filter.mp ht
    exact Token.spelling_of_mem hmem hwritten
  have hcontents : (Token.ofSource d (String.ofList (lead ++ text))).map Token.content =
      ((Token.ofSource d source).filter Token.isWritten).map Token.content ++ [(.eof, "")] := by
    obtain ⟨cuts, hcuts, hread⟩ := Token.exists_cuts d (String.ofList (lead ++ text))
    rw [String.toList_ofList] at hcuts
    obtain ⟨cuts', hbehind, hsame⟩ := hcuts.exists_behind (hlead.trivia text)
    rw [← hread, List.map_map]
    exact hsame.trans (htext.contents_eq hspell hbehind)
  refine ⟨hcontents, ?_⟩
  intro t ht
  -- The class of the token is that of a text, or of the end.
  have hmem : t.content ∈ (Token.ofSource d (String.ofList (lead ++ text))).map Token.content :=
    List.mem_map_of_mem ht
  rw [hcontents, List.mem_append, List.mem_singleton] at hmem
  rcases hmem with hmem | hend
  · obtain ⟨t', ht', hsame⟩ := List.mem_map.mp hmem
    have hkind : t'.kind = t.kind := congrArg Prod.fst hsame
    exact decide_eq_false (hkind ▸ (hspell t' ht').kind_ne.1)
  · have hkind : t.kind = .eof := congrArg Prod.fst hend
    rw [Token.isError, hkind]
    rfl

/-- Words that begin like reserved ones, a number that ends in a dot, a string
that holds what looks like a comment, and a stray character, which is left out. -/
theorem Token.ofSource_printed_mixed :
    let source := "fore//\n7.\"a//\nb\"@/for"
    let lead := "// x\n".toList
    let text := "fore".toList ++ '\t' :: ([] ++ ("7.".toList ++ ' ' :: ([] ++
      ("\"a//\nb\"".toList ++ '\r' :: ("// y\n".toList ++ ("/".toList ++ '\n' :: ([] ++
        "for".toList)))))))
    Spacing lead ∧ Printed ((Token.ofSource {} source).filter Token.isWritten) text ∧
      (Token.ofSource {} (String.ofList (lead ++ text))).map Token.content =
        ((Token.ofSource {} source).filter Token.isWritten).map Token.content ++ [(.eof, "")] ∧
      ∀ t ∈ Token.ofSource {} (String.ofList (lead ++ text)), t.isError = false := by
  intro source lead text
  have hcomment : ∀ c : Char, c ≠ '\n' → Spacing ['/', '/', ' ', c, '\n'] := by
    intro c hc
    have hbody : '\n' ∉ [' ', c] := by
      simp [hc.symm]
    exact .comment hbody .nil
  have hlead : Spacing lead := hcomment 'x' (by decide)
  have hwritten : (Token.ofSource {} source).filter Token.isWritten =
      [⟨.identifier, "fore", 1, .ofNat 0 4⟩, ⟨.number, "7.", 2, .ofNat 7 9⟩,
        ⟨.string, "\"a//\nb\"", 2, .ofNat 9 16⟩, ⟨.symbol .slash, "/", 3, .ofNat 17 18⟩,
        ⟨.keyword .forLoop, "for", 3, .ofNat 18 21⟩] := by
    decide +kernel
  have htext : Printed ((Token.ofSource {} source).filter Token.isWritten) text := by
    rw [hwritten]
    exact .next _ (by decide) .nil (.next _ (by decide) .nil (.next _ (by decide)
      (hcomment 'y' (by decide)) (.next _ (by decide) .nil (.last _))))
  exact ⟨hlead, htext, Token.ofSource_printed {} source hlead htext⟩

end ScriptFront
