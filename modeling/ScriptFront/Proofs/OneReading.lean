/-
A text has one reading, and it does not depend on what was read before.

A text divides into trivia and a rest in one way (`Trivia.split_unique`), and the
longest reading of the rest is one as well (`Token.Longest.unique`). So whoever
knows how a text begins knows the first cut of its reading and has the reading of
the remainder in hand: `Cuts.cases_token` and `Cuts.cases_end` take a reading
apart at a division that is given, and every later argument about two readings
goes through them.

The first such argument is that two readings of one text, after whatever texts
they come, are the same but for where they lie (`Cuts.moved`). Trivia in front of
one of them makes no difference either, so that the same lemma lets a reading go
on behind trivia.

What ends a token is stated in `Token.Longest.append_layout`: with layout behind
it, a text is read as it is without anything behind it. Only a string goes on
over layout, and a string is over at its second quote.
-/
import Mathlib.Data.List.Forall2
import ScriptFront.Proofs.Lines

set_option autoImplicit false

namespace ScriptFront

open Token (IsLayout IsNamePart IsDecimal Spelling Reading Longest)

/-! ## One division, one reading -/

theorem not_beginsTrivia_nil : ¬ BeginsTrivia [] := by
  rintro (⟨c, t, h, -⟩ | ⟨t, h⟩)
  · contradiction
  · contradiction

namespace Trivia

variable {gap gap' s rest rest' after : List Char}

/-- A text divides into trivia and a rest that begins with none in one way. -/
theorem split_unique (h : Trivia gap rest) (hrest : ¬ BeginsTrivia rest)
    (h' : Trivia gap' rest') (hrest' : ¬ BeginsTrivia rest')
    (hsame : gap' ++ rest' = gap ++ rest) : gap' = gap ∧ rest' = rest := by
  -- Both rests are what is left when trivia is skipped.
  have hskip := skipTrivia_append .start h hrest
  rw [← hsame, skipTrivia_append .start h' hrest'] at hskip
  obtain rfl : rest' = rest := congrArg Prod.snd hskip
  exact ⟨List.append_cancel_right hsame, rfl⟩

/-- Trivia followed by trivia is trivia. -/
theorem append (h : Trivia gap (s ++ after)) (hs : Trivia s after) : Trivia (gap ++ s) after := by
  generalize hrest : s ++ after = rest at h
  induction h with
  | nil => exact hs
  | layout hc _ ih => exact .layout hc (ih hrest)
  | @comment body t _ hbody hend _ ih =>
    rw [List.cons_append, List.cons_append, List.append_assoc]
    refine .comment hbody ?_ (ih hrest)
    rw [List.append_assoc, hrest]
    exact hend

/-- A line feed behind the text leaves the trivia before it as it is. -/
theorem append_newline (h : Trivia gap after) (s : List Char) :
    Trivia gap (after ++ '\n' :: s) := by
  induction h with
  | nil => exact .nil
  | layout hc _ ih => exact .layout hc ih
  | @comment body t after hbody hend _ ih =>
    refine .comment hbody ?_ ih
    rw [← List.append_assoc]
    rcases hend with hnil | ⟨u, hu⟩
    · rw [hnil]
      exact .inr ⟨s, rfl⟩
    · rw [hu]
      exact .inr ⟨u ++ '\n' :: s, rfl⟩

end Trivia

/-- A text has one longest reading at its start: were one of two readings longer, the other
would not be longest. -/
theorem Token.Longest.unique {d : Dialect} {kind kind' : Token.Kind} {lexeme lexeme' : String}
    {text text' after after' : List Char} (h : Longest d kind lexeme text after)
    (h' : Longest d kind' lexeme' text' after') (hsame : text' ++ after' = text ++ after) :
    kind' = kind ∧ lexeme' = lexeme ∧ text' = text ∧ after' = after := by
  rcases h.longest _ _ _ _ hsame h'.reading with hlt | ⟨rfl, rfl, rfl⟩
  · rcases h'.longest _ _ _ _ hsame.symm h.reading with hlt' | ⟨-, -, rfl⟩
    · exact absurd hlt (Nat.lt_asymm hlt')
    · exact absurd hlt (Nat.lt_irrefl _)
  · exact ⟨rfl, rfl, rfl, List.append_cancel_left hsame⟩

/-! ## Taking a reading apart -/

namespace Cuts

variable {d : Dialect} {before gap text after rest : List Char} {cuts : List Cut}
variable {kind : Token.Kind} {lexeme : String}

/-- The reading of trivia up to the end of a source is the end token. -/
theorem cases_end (h : Cuts d before gap cuts) (hgap : Trivia gap []) :
    ∃ k, cuts = [k] ∧ k.IsEnd ∧ k.before = before ∧ k.gap = gap := by
  cases h with
  | @last k hend => exact ⟨k, rfl, hend, rfl, rfl⟩
  | @next k ks htoken _ =>
    have hnone := (Trivia.split_unique hgap not_beginsTrivia_nil htoken.gap htoken.begins
      (List.append_nil _).symm).2
    exact absurd (List.append_eq_nil_iff.mp hnone).1 htoken.longest.reading.ne_nil

/-- The reading of a text that begins with a token, behind trivia, has that token
first and goes on behind it. -/
theorem cases_token (h : Cuts d before rest cuts) (hrest : rest = gap ++ (text ++ after))
    (hgap : Trivia gap (text ++ after)) (hbegins : ¬ BeginsTrivia (text ++ after))
    (hlongest : Longest d kind lexeme text after) :
    ∃ k ks, cuts = k :: ks ∧ k.IsToken d ∧ k.start = before ++ gap ∧ k.text = text ∧
      k.token.kind = kind ∧ k.token.lexeme = lexeme ∧ Cuts d k.stop after ks := by
  cases h with
  | @last k hend =>
    have hnone := (Trivia.split_unique hgap hbegins hend.gap not_beginsTrivia_nil
      ((List.append_nil _).trans hrest)).2
    exact absurd (List.append_eq_nil_iff.mp hnone.symm).1 hlongest.reading.ne_nil
  | @next k ks htoken htail =>
    obtain ⟨hsamegap, hsame⟩ := Trivia.split_unique hgap hbegins htoken.gap htoken.begins hrest
    obtain ⟨hkind, hlexeme, htext, hafter⟩ := hlongest.unique htoken.longest hsame
    refine ⟨k, ks, rfl, htoken, ?_, htext, hkind, hlexeme, hafter ▸ htail⟩
    rw [Cut.start, hsamegap]

/-- A division has at least the cut of the end token. -/
theorem ne_nil (h : Cuts d before rest cuts) : cuts ≠ [] := by
  cases h with
  | last _ | next _ _ => exact List.cons_ne_nil _ _

/-- Every text has a reading, whatever comes before it. -/
theorem exist (d : Dialect) (before rest : List Char) : ∃ cuts, Cuts d before rest cuts := by
  let c : Cursor := { dialect := d, place := .through .start before, rest }
  have hpassed : c.Passed (before ++ rest) before := ⟨rfl, rfl⟩
  obtain ⟨cuts, hcuts, -⟩ := Cursor.exists_cuts hpassed rfl
  exact ⟨cuts, hcuts⟩

end Cuts

/-! ## Readings of one text -/

theorem Token.eq_of_parts {t t' : Token} (hkind : t'.kind = t.kind) (hlexeme : t'.lexeme = t.lexeme)
    (hline : t'.line = t.line) (hspan : t'.span = t.span) : t' = t := by
  obtain ⟨kind, lexeme, line, span⟩ := t
  obtain ⟨kind', lexeme', line', span'⟩ := t'
  rw [Token.mk.injEq]
  exact ⟨hkind, hlexeme, hline, hspan⟩

/-- The second cut is the first one in a source with `ahead` put in front. What
lies between the token and the one before it need not be the same. -/
structure Cut.Moved (ahead : List Char) (k k' : Cut) : Prop where
  start : k'.start = ahead ++ k.start
  stop : k'.stop = ahead ++ k.stop
  kind : k'.token.kind = k.token.kind
  lexeme : k'.token.lexeme = k.token.lexeme

namespace Cut

variable {d d' : Dialect} {ahead : List Char} {k k' : Cut}

/-- Moving a token does not close or open a string. -/
theorem Moved.isUnterminated_iff (h : Moved ahead k k') :
    k'.token.IsUnterminated ↔ k.token.IsUnterminated := by
  rw [Token.IsUnterminated, Token.IsUnterminated, h.kind, h.lexeme]

/-- Where nothing is put in front, the token is the same. -/
theorem Moved.token_eq (h : Moved [] k k') (hk : k.Sound d) (hk' : k'.Sound d') :
    k'.token = k.token := by
  have hspan : k'.token.span = k.token.span := by
    rw [hk.span, hk'.span, h.start, h.stop]
    rfl
  have hline : k'.token.line = k.token.line := by
    rw [hk.line, hk'.line, h.start, h.stop]
    simp only [h.isUnterminated_iff, List.nil_append]
  exact Token.eq_of_parts h.kind h.lexeme hline hspan

end Cut

/-- **A reading does not depend on what comes before it**, nor on trivia passed
over to reach it: the cuts lie further on in the one source than in the other,
and are else the same. The induction is on the first reading, and in each step
the second one is taken apart at the same token. -/
theorem Cuts.moved {d : Dialect} {ahead before before' gap rest : List Char}
    {cuts cuts' : List Cut} (h : Cuts d before rest cuts) (h' : Cuts d before' (gap ++ rest) cuts')
    (hgap : Trivia gap rest) (hahead : before' ++ gap = ahead ++ before) :
    List.Forall₂ (Cut.Moved ahead) cuts cuts' := by
  induction h generalizing before' gap cuts' with
  | @last k hend =>
    have htrivia : Trivia (gap ++ k.gap) [] :=
      Trivia.append (by rwa [List.append_nil]) hend.gap
    obtain ⟨k', rfl, hend', hbefore, hsame⟩ := h'.cases_end htrivia
    have hstart : k'.start = ahead ++ k.start := by
      rw [Cut.start, hbefore, hsame, ← List.append_assoc, hahead, Cut.start, List.append_assoc]
    refine .cons ⟨hstart, ?_, ?_, ?_⟩ .nil
    · rw [Cut.stop, hend'.text, hstart, Cut.stop, hend.text, List.append_assoc]
    · rw [hend'.token, hend.token]
    · rw [hend'.token, hend.token]
  | @next k ks htoken _ ih =>
    obtain ⟨k', ks', rfl, -, hbefore, htext, hkind, hlexeme, htail⟩ :=
      h'.cases_token (List.append_assoc ..).symm (hgap.append htoken.gap) htoken.begins
        htoken.longest
    have hstart : k'.start = ahead ++ k.start := by
      rw [hbefore, ← List.append_assoc, hahead, Cut.start, List.append_assoc]
    have hstop : k'.stop = ahead ++ k.stop := by
      rw [Cut.stop, hstart, htext, List.append_assoc, Cut.stop]
    refine .cons ⟨hstart, hstop, hkind, hlexeme⟩ (ih htail .nil ?_)
    rw [List.append_nil, hstop]

/-! ## Where a token ends -/

namespace Token

variable {d : Dialect} {kind : Kind} {lexeme : String} {text after : List Char} {x : Char}

/-- The report of a string that has not been closed. -/
def IsOpen (kind : Kind) (lexeme : String) : Prop :=
  kind = .error ∧ lexeme = "unterminated string"

/-- A reading stays one whatever follows it, unless it is a string that has not
been closed. -/
theorem Reading.of_terminated (h : Reading d kind lexeme text after)
    (hclosed : ¬ IsOpen kind lexeme) (after' : List Char) :
    Reading d kind lexeme text after' := by
  cases h with
  | token hspell => exact .token hspell
  | unterminated _ => exact absurd ⟨rfl, rfl⟩ hclosed
  | unexpected hnone hlayout => exact .unexpected hnone hlayout

/-- An unclosed string takes all that is left. -/
theorem Reading.after_eq_nil (h : Reading d kind lexeme text after)
    (hopen : IsOpen kind lexeme) : after = [] := by
  cases h with
  | token hspell => exact absurd hopen.1 hspell.kind_ne.1
  | unterminated _ => rfl
  | unexpected _ _ => exact absurd hopen.2 (by decide)

theorem IsNamePart.not_isLayout (h : IsNamePart x) : ¬ IsLayout x := by
  rintro (rfl | rfl | rfl | rfl)
  all_goals exact absurd h (by decide)

theorem IsNumeral.not_isLayout (h : IsNumeral text) (hx : x ∈ text) : ¬ IsLayout x := by
  rcases h.forall_mem x hx with hdigit | rfl
  · exact IsNamePart.not_isLayout (.inr hdigit)
  · decide

theorem Symbol.not_isLayout (b : Symbol) (hx : x ∈ b.text.toList) : ¬ IsLayout x := by
  have hall : (b.text.toList.all fun c => !decide (IsLayout c)) = true := by
    cases b <;> decide
  simpa using List.all_eq_true.mp hall x hx

/-- Only what begins with a quote has layout inside. -/
theorem Reading.eq_quote_of_layout (h : Reading d kind lexeme text after) (hx : x ∈ text)
    (hlayout : IsLayout x) : ∃ t, text = '"' :: t := by
  cases h with
  | token hspell =>
    cases hspell with
    | keyword hword _ | identifier hword _ =>
      exact absurd hlayout (hword.forall_mem x hx).not_isLayout
    | number hnum => exact absurd hlayout (hnum.not_isLayout hx)
    | string _ => exact ⟨_, rfl⟩
    | symbol b => exact absurd hlayout (b.not_isLayout hx)
  | unterminated _ => exact ⟨_, rfl⟩
  | unexpected _ hnot =>
    obtain rfl := List.mem_singleton.mp hx
    exact absurd hlayout hnot

/-- A reading that has layout inside does not go on from a shorter reading of
the same text, unless that one is a string that has not been closed. -/
theorem Reading.not_extends {kind' : Kind} {lexeme' : String} {s after' : List Char}
    (h : Reading d kind lexeme text after)
    (hclosed : ¬ IsOpen kind lexeme)
    (h' : Reading d kind' lexeme' (text ++ s) after') (hx : x ∈ s) : ¬ IsLayout x := by
  intro hlayout
  obtain ⟨t', ht'⟩ := h'.eq_quote_of_layout (List.mem_append_right _ hx) hlayout
  obtain ⟨c, t, rfl⟩ := List.exists_cons_of_ne_nil h.ne_nil
  obtain ⟨rfl, hs⟩ := List.cons.inj ht'
  rcases h.of_quote rfl with ⟨-, -, body, hbody, rfl⟩ | ⟨hkind, hlexeme, -⟩
  · -- The shorter one is a whole string, so the quote that closes it is inside
    -- the longer one.
    have hsame : t' = body ++ '"' :: s := hs.symm.trans (List.append_assoc ..)
    obtain ⟨htake, hdrop⟩ := Lexeme.span_of_quote (u := s) hbody
    rw [← hsame] at htake hdrop
    rcases h'.of_quote ht' with ⟨-, -, body', hbody', rfl⟩ | ⟨-, -, hnone, -⟩
    · rw [(Lexeme.span_of_quote (u := []) hbody').2] at hdrop
      obtain rfl : [] = s := (List.cons.inj hdrop).2
      exact List.not_mem_nil hx
    · exact hnone (hsame ▸ List.mem_append_right _ List.mem_cons_self)
  · exact hclosed ⟨hkind, hlexeme⟩

/-- **Layout ends a token**: with layout behind it, a text is read as it is
without. The exception is a string that is not closed, which would go on. -/
theorem Longest.append_layout (h : Longest d kind lexeme text after)
    (hclosed : ¬ IsOpen kind lexeme) (hx : IsLayout x)
    (s : List Char) : Longest d kind lexeme text (after ++ x :: s) := by
  refine ⟨h.reading.of_terminated hclosed _, ?_⟩
  intro kind' lexeme' text' after' hsame h'
  have hsame' : text' ++ after' = (text ++ after) ++ x :: s := by rw [hsame, List.append_assoc]
  have hshort : ∀ r, text ++ after = text' ++ r → after' = r ++ x :: s →
      text'.length < text.length ∨ (kind' = kind ∧ lexeme' = lexeme ∧ text' = text) := by
    intro r hr hafter
    have hopen : ¬ IsOpen kind' lexeme' := fun hopen =>
      List.append_ne_nil_of_right_ne_nil r (List.cons_ne_nil x s)
        (hafter ▸ h'.after_eq_nil hopen)
    exact h.longest kind' lexeme' text' r hr.symm (h'.of_terminated hopen r)
  -- Either the other reading stops before the layout, or the layout is inside it.
  rcases List.append_eq_append_iff.mp hsame' with ⟨r, hr, hafter⟩ | ⟨r, hr, hafter⟩
  · exact hshort r hr hafter
  · cases r with
    | nil => exact hshort [] (by rw [hr, List.append_nil, List.append_nil]) hafter.symm
    | cons a r =>
      obtain ⟨rfl, -⟩ := List.cons.inj hafter
      rw [hr, List.append_assoc] at h'
      exact absurd hx (h.reading.not_extends hclosed h'
        (List.mem_append_right _ List.mem_cons_self))

end Token

/-- A text that begins trivia only with layout behind it begins it without. -/
theorem BeginsTrivia.of_append_layout {s t : List Char} {x : Char}
    (h : BeginsTrivia (s ++ x :: t)) (hs : s ≠ []) (hx : IsLayout x) : BeginsTrivia s := by
  obtain ⟨c, s, rfl⟩ := List.exists_cons_of_ne_nil hs
  rcases h with ⟨c', u, hsame, hc⟩ | ⟨u, hsame⟩
  · obtain ⟨rfl, -⟩ := List.cons.inj hsame
    exact .inl ⟨c, s, rfl, hc⟩
  · obtain ⟨rfl, hsecond⟩ := List.cons.inj hsame
    cases s with
    | nil =>
      obtain ⟨rfl, -⟩ := List.cons.inj hsecond
      exact absurd hx (by decide)
    | cons a s =>
      obtain ⟨rfl, -⟩ := List.cons.inj hsecond
      exact .inr ⟨s, rfl⟩

end ScriptFront
