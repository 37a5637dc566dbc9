/-
Reading does not remember.

A cursor that stands in the middle of a source goes on as a new cursor would that is set
before what is left. Whatever was read before is only counted: the offset and the line of
the cursor say how much it was, and the tokens to come are those of the new cursor, moved by
these two (`Token.Moved`).

The argument sets the two cursors side by side (`Cursor.Ahead`). One pull hands out the same
token on both sides, moved, and leaves them side by side (`Ahead.pull`): the trivia that is
passed over and the lexeme behind it depend on what is left and on nothing else, and as long
as offsets and lines are exact, the place of the one is the place of the other and what lies
ahead. Any calls follow by induction (`Ahead.answers`). A walk over bytes keeps more about
where it is, namely the whole source, the beginning of its last token and the line that it
was on, and goes on in the same way, since it keeps pace with the cursor.
-/
import ScriptFront.Proofs.CharBoundaries
import ScriptFront.Proofs.Resumption

set_option autoImplicit false

namespace ScriptFront

/-! ## Tokens behind more text -/

section Moved

variable {ahead s : List Char}

/-- Behind more text the line is counted on from the lines of that text, while the counter has
room. -/
theorem lineAfter_ahead (h : 1 + (ahead ++ s).count '\n' ≤ Place.lastLine) :
    lineAfter (ahead ++ s) = lineAfter s + ahead.count '\n' := by
  simp only [lineAfter, List.count_append] at h ⊢
  omega

/-- Behind more text the offset is counted on from the bytes of that text, while the offset has
room. -/
theorem toNat_offset_ahead (h : byteLength (ahead ++ s) ≤ Offset.last) :
    (Offset.ofNat (byteLength (ahead ++ s))).toNat =
      (Offset.ofNat (byteLength s)).toNat + byteLength ahead := by
  simp only [Offset.toNat_ofNat, byteLength_append] at h ⊢
  omega

/-- The end token of a text behind more text is moved with it. -/
theorem Token.moved_atEnd (hsize : byteLength (ahead ++ s) ≤ Offset.last)
    (hlines : 1 + (ahead ++ s).count '\n' ≤ Place.lastLine) :
    Moved (byteLength ahead) (ahead.count '\n') (.atEnd (.through .start s))
      (.atEnd (.through .start (ahead ++ s))) where
  kind := rfl
  lexeme := rfl
  line := by
    simp only [atEnd, Place.line_start_through]
    exact lineAfter_ahead hlines
  start := by
    simp only [atEnd, Span.ofNat, Place.offset_start_through]
    exact toNat_offset_ahead hsize
  stop := by
    simp only [atEnd, Span.ofNat, Place.offset_start_through]
    exact toNat_offset_ahead hsize

/-- A lexeme behind more text makes the same token, moved by that text. -/
theorem Lexeme.moved_token (l : Lexeme) (hsize : byteLength (ahead ++ (s ++ l.text)) ≤ Offset.last)
    (hlines : 1 + (ahead ++ (s ++ l.text)).count '\n' ≤ Place.lastLine) :
    Token.Moved (byteLength ahead) (ahead.count '\n')
      (l.token (.through .start s) (.through .start (s ++ l.text)))
      (l.token (.through .start (ahead ++ s)) (.through .start (ahead ++ (s ++ l.text)))) := by
  -- The beginning of the lexeme is within the bounds, too.
  have hsize' : byteLength (ahead ++ s) ≤ Offset.last := by
    simp only [byteLength_append] at hsize ⊢
    omega
  have hlines' : 1 + (ahead ++ s).count '\n' ≤ Place.lastLine := by
    simp only [List.count_append] at hlines ⊢
    omega
  refine ⟨?_, ?_, ?_, ?_, ?_⟩
  · simp only [token]
    split <;> rfl
  · simp only [token]
    split <;> rfl
  · simp only [token]
    split
    · simp only [Place.line_start_through]
      exact lineAfter_ahead hlines'
    · simp only [Place.line_start_through]
      exact lineAfter_ahead hlines
  · simp only [span_token, Span.ofNat, Place.offset_start_through]
    exact toNat_offset_ahead hsize'
  · simp only [span_token, Span.ofNat, Place.offset_start_through]
    exact toNat_offset_ahead hsize

end Moved

namespace Cursor

/-! ## What a pull depends on -/

section Pull

variable {c : Cursor} {source before gap : List Char} (h : c.Passed source before)
include h

/-- A pull with trivia alone ahead is answered with the end token. -/
theorem pull_of_end (hrest : c.rest = gap) (htrivia : Trivia gap []) :
    c.pull = (.atEnd (.through .start (before ++ gap)),
      { c with place := .through .start (before ++ gap), rest := [] }) := by
  have hskip : skipTrivia c.place false c.rest = (.through .start (before ++ gap), []) := by
    rw [hrest, ← List.append_nil gap, skipTrivia_append _ htrivia not_beginsTrivia_nil, h.place,
      Place.through_append, List.append_nil]
  rw [pull, hskip]

/-- A pull passes the trivia ahead and cuts one lexeme. -/
theorem pull_of_lexeme {a : Char} {s : List Char} (hrest : c.rest = gap ++ a :: s)
    (htrivia : Trivia gap (a :: s)) (hbegins : ¬ BeginsTrivia (a :: s)) :
    c.pull = ((Lexeme.ofHead c.dialect a s).token (.through .start (before ++ gap))
        (.through .start (before ++ gap ++ (Lexeme.ofHead c.dialect a s).text)),
      { c with
        place := .through .start (before ++ gap ++ (Lexeme.ofHead c.dialect a s).text)
        rest := (Lexeme.ofHead c.dialect a s).rest }) := by
  have hskip : skipTrivia c.place false c.rest = (.through .start (before ++ gap), a :: s) := by
    rw [hrest, skipTrivia_append _ htrivia hbegins, h.place, Place.through_append]
  rw [pull, hskip]
  simp only [Place.through_append]

end Pull

/-! ## Two cursors side by side -/

/-- The second cursor stands where the first one does, in a source with `ahead` put in
front. -/
structure Ahead (ahead source before : List Char) (c c' : Cursor) : Prop where
  passed : c.Passed source before
  behind : c'.Passed (ahead ++ source) (ahead ++ before)
  dialect : c'.dialect = c.dialect
  ended : c'.ended = c.ended

namespace Ahead

variable {ahead source before : List Char} {c c' : Cursor}

/-- Two cursors side by side have the same text ahead. -/
theorem rest_eq (h : Ahead ahead source before c c') : c'.rest = c.rest := by
  have hwhole := h.behind.whole
  rw [← h.passed.whole, List.append_assoc] at hwhole
  exact List.append_cancel_left (List.append_cancel_left hwhole)

/-- The same may be noted about the end token on both sides. -/
theorem withEnded (h : Ahead ahead source before c c') (b : Bool) :
    Ahead ahead source before (c.withEnded b) (c'.withEnded b) :=
  ⟨⟨h.passed.place, h.passed.whole⟩, ⟨h.behind.place, h.behind.whole⟩, h.dialect, rfl⟩

variable (hsize : byteLength (ahead ++ source) ≤ Offset.last)
  (hlines : 1 + (ahead ++ source).count '\n' ≤ Place.lastLine)
include hsize hlines

/-- **One pull hands out the same token on both sides**, moved, and leaves the cursors side
by side. -/
theorem pull (h : Ahead ahead source before c c') :
    Token.Moved (byteLength ahead) (ahead.count '\n') c.pull.1 c'.pull.1 ∧
      ∃ passed, Ahead ahead source passed c.pull.2 c'.pull.2 := by
  obtain ⟨gap, rest, hsplit, htrivia, hbegins⟩ := exists_trivia c.rest
  have hsplit' : c'.rest = gap ++ rest := h.rest_eq.trans hsplit
  have hwhole : before ++ gap ++ rest = source := by
    rw [List.append_assoc, ← hsplit, h.passed.whole]
  -- Whatever lies before some place of the source is within the bounds.
  have hbounds : ∀ s t : List Char, s ++ t = source →
      byteLength (ahead ++ s) ≤ Offset.last ∧
        1 + (ahead ++ s).count '\n' ≤ Place.lastLine := by
    rintro s t rfl
    simp only [byteLength_append, List.count_append] at hsize hlines ⊢
    omega
  cases rest with
  | nil =>
    rw [List.append_nil] at hsplit hsplit'
    rw [pull_of_end h.passed hsplit htrivia, pull_of_end h.behind hsplit' htrivia,
      List.append_assoc]
    obtain ⟨hbytes, hfeeds⟩ := hbounds _ _ hwhole
    rw [List.append_nil] at hwhole
    refine ⟨Token.moved_atEnd hbytes hfeeds, before ++ gap, ⟨rfl, ?_⟩, ⟨rfl, ?_⟩, h.dialect, h.ended⟩
    · simp [hwhole]
    · simp [hwhole]
  | cons a s =>
    rw [pull_of_lexeme h.passed hsplit htrivia hbegins,
      pull_of_lexeme h.behind hsplit' htrivia hbegins, h.dialect]
    generalize hlexeme : Lexeme.ofHead c.dialect a s = l
    have hread : l.text ++ l.rest = a :: s := by rw [← hlexeme, Lexeme.text_append_rest]
    rw [← hread, ← List.append_assoc] at hwhole
    obtain ⟨hbytes, hfeeds⟩ := hbounds _ _ hwhole
    rw [List.append_assoc ahead, List.append_assoc ahead]
    refine ⟨l.moved_token hbytes hfeeds, before ++ gap ++ l.text, ⟨rfl, hwhole⟩, ⟨rfl, ?_⟩, rfl,
      h.ended⟩
    rw [List.append_assoc, hwhole]

/-- Any calls are answered alike. The induction is on the calls. -/
theorem answers (h : Ahead ahead source before c c') (calls : List Call) :
    List.Forall₂ (Option.Rel (Token.Moved (byteLength ahead) (ahead.count '\n')))
      (c.answers calls) (c'.answers calls) := by
  induction calls generalizing before c c' with
  | nil => exact .nil
  | cons a calls ih =>
    rw [Cursor.answers, Cursor.answers, call_eq c, call_eq c', h.ended]
    by_cases hdone : a = .next ∧ c.ended = true
    · rw [if_pos hdone, if_pos hdone]
      exact .cons .none (ih h)
    · rw [if_neg hdone, if_neg hdone]
      obtain ⟨hmoved, passed, hnext⟩ := h.pull hsize hlines
      have heof : c'.pull.1.isEof = c.pull.1.isEof := by
        rw [Token.isEof, Token.isEof, hmoved.kind]
      refine .cons (.some hmoved) ?_
      rw [heof]
      exact ih (hnext.withEnded _)

/-- The tokens that `next?` hands out up to the end are the same as well. -/
theorem tokens (h : Ahead ahead source before c c') (hended : c.ended = false) :
    List.Forall₂ (Token.Moved (byteLength ahead) (ahead.count '\n')) c.tokens c'.tokens := by
  obtain ⟨cuts, hcuts, htokens⟩ := exists_cuts h.passed hended
  obtain ⟨cuts', hcuts', htokens'⟩ := exists_cuts h.behind (h.ended.trans hended)
  rw [h.dialect, h.rest_eq] at hcuts'
  have hmoved : List.Forall₂ (Cut.Moved ahead) cuts cuts' :=
    hcuts.moved (hcuts' : Cuts c.dialect _ ([] ++ c.rest) cuts') .nil (List.append_nil _)
  have hsuccession := hcuts'.succession
  have hwhole : ahead ++ before ++ c.rest = ahead ++ source := by
    rw [List.append_assoc, h.passed.whole]
  rw [hwhole] at hsuccession
  rw [← htokens, ← htokens']
  exact hcuts.succession.tokens_moved hmoved hsuccession.sound hsuccession.whole hsize hlines

end Ahead

/-! ## In the middle of a source -/

/-- Pulling again and again is a run of calls. -/
theorem after_replicate_pull (c : Cursor) (n : Nat) :
    c.after (List.replicate n .pull) = c.pulled n := by
  induction n generalizing c with
  | zero => rfl
  | succ n ih =>
    rw [List.replicate_succ, after, pulled_succ]
    exact ih c.pull.2

@[simp] theorem dialect_pull (c : Cursor) : c.pull.2.dialect = c.dialect := by
  unfold pull
  split <;> rfl

/-- A pull does not note the end, whatever it answers. -/
theorem ended_pulled (c : Cursor) (n : Nat) : (c.pulled n).ended = c.ended := by
  induction n with
  | zero => rfl
  | succ n ih => rw [pulled_succ', ended_pull, ih]

/-- The dialect of a cursor never changes. -/
theorem dialect_pulled (c : Cursor) (n : Nat) : (c.pulled n).dialect = c.dialect := by
  induction n with
  | zero => rfl
  | succ n ih => rw [pulled_succ', dialect_pull, ih]

/-- A cursor in the middle of a source stands beside a new one before what is left. -/
theorem exists_ahead (d : Dialect) (source : String) (n : Nat) :
    let c := (Cursor.ofSource d source).pulled n
    ∃ passed, passed ++ c.rest = source.toList ∧ c.place = Place.start.through passed ∧
      Ahead passed c.rest [] (.ofSource d (String.ofList c.rest)) c := by
  intro c
  obtain ⟨-, passed, -, -, hpassed⟩ :=
    exists_succession (passed_ofSource d source) (List.replicate n .pull)
  rw [after_replicate_pull] at hpassed
  refine ⟨passed, hpassed.whole, hpassed.place, ⟨rfl, String.toList_ofList⟩, ⟨?_, ?_⟩,
    dialect_pulled _ n, ended_pulled _ n⟩
  · rw [List.append_nil]
    exact hpassed.place
  · rw [List.append_nil]

/-- **Reading is memoryless.** After any number of pulls the offset of the cursor cuts the
source between two characters, and what is still to come depends on nothing but the rest
behind it: the tokens are those of a new cursor before that rest, moved by the offset and by
the lines that were passed. The same holds of any further calls, in whichever way the tokens
are asked for, of the cursor as of the walk over bytes that stands at this offset on this
line. -/
theorem pulled_memoryless (d : Dialect) (source : String) (n : Nat)
    (hsize : source.utf8ByteSize ≤ Offset.last)
    (hlines : 1 + source.toList.count '\n' < Place.lastLine) :
    let c := (Cursor.ofSource d source).pulled n
    let Moved := Token.Moved c.place.offset (c.place.line - 1)
    ∃ rest : String,
      rest.toUTF8 = source.toUTF8.extract c.place.offset source.utf8ByteSize ∧
      List.Forall₂ Moved (Token.ofSource d rest) c.tokens ∧
      (∀ calls, List.Forall₂ (Option.Rel Moved) ((Cursor.ofSource d rest).answers calls)
        (c.answers calls)) ∧
      ∀ fallback, ∃ pulls w,
        (Walk.run d fallback source .begin (List.replicate n .pull)).run = .some (.ok (pulls, w)) ∧
        w.current = c.place.offset ∧ w.line = c.place.line ∧
        ∀ calls, ∃ answers answers' w₁ w₂,
          (Walk.run d fallback rest .begin calls).run = .some (.ok (answers, w₁)) ∧
          (Walk.run d fallback source w calls).run = .some (.ok (answers', w₂)) ∧
          List.Forall₂ (Option.Rel Moved) answers answers' := by
  intro c Moved
  obtain ⟨passed, hwhole, hplace, hahead⟩ := exists_ahead d source n
  have hbytes : byteLength (passed ++ c.rest) ≤ Offset.last := by
    rw [hwhole, ← utf8ByteSize_eq]
    exact hsize
  have hfeeds : 1 + (passed ++ c.rest).count '\n' ≤ Place.lastLine := by
    rw [hwhole]
    exact Nat.le_of_lt hlines
  -- The place of the cursor counts what has been passed.
  have hoffset : c.place.offset = byteLength passed := by
    rw [hplace, Place.offset_start_through]
  have hline : c.place.line - 1 = passed.count '\n' := by
    rw [hplace, Place.line_start_through, lineAfter]
    rw [List.count_append] at hfeeds
    omega
  have hmoved : Moved = Token.Moved (byteLength passed) (passed.count '\n') := by
    simp only [Moved, hoffset, hline]
  have hanswers := hahead.answers hbytes hfeeds
  have htokens := hahead.tokens hbytes hfeeds rfl
  rw [← hmoved] at hanswers htokens
  refine ⟨String.ofList c.rest, ?_, htokens, hanswers, ?_⟩
  · have hparts : source.toList = passed ++ c.rest ++ [] := by rw [List.append_nil, hwhole]
    have hextract := extract_toByteArray hparts
    rw [hwhole, ← utf8ByteSize_eq, ← hoffset] at hextract
    rw [String.toUTF8_eq_toByteArray, String.toUTF8_eq_toByteArray, hextract]
  · intro fallback
    obtain ⟨w, before, hrun, hw⟩ :=
      Walk.run_eq fallback (Walk.follows_ofSource d source) (List.replicate n .pull)
    rw [after_replicate_pull] at hw
    refine ⟨_, w, congrArg ExceptT.run hrun, ?_, ?_, ?_⟩
    · rw [hw.walk.current, hw.cursor.place, Place.offset_start_through]
    · rw [hw.walk.line, hw.cursor.place, Place.line_start_through]
    · intro calls
      obtain ⟨w₁, -, hnew, -⟩ :=
        Walk.run_eq fallback (Walk.follows_ofSource d (String.ofList c.rest)) calls
      obtain ⟨w₂, -, hold, -⟩ := Walk.run_eq fallback hw calls
      exact ⟨_, _, w₁, w₂, congrArg ExceptT.run hnew, congrArg ExceptT.run hold, hanswers calls⟩

/-- In the middle of a line, behind a string over two lines and a character of two bytes, with
half an operator and an open string to come. -/
theorem pulled_memoryless_mixed :
    let source := "\"a\nb\" é\n1.<= \"c"
    let c := (Cursor.ofSource {} source).pulled 3
    source.utf8ByteSize ≤ Offset.last ∧ 1 + source.toList.count '\n' < Place.lastLine ∧
      c.place = { offset := 11, line := 3 } ∧
      ∃ rest : String, rest.toUTF8 = source.toUTF8.extract 11 source.utf8ByteSize ∧
        List.Forall₂ (Token.Moved 11 2) (Token.ofSource {} rest) c.tokens := by
  intro source c
  have hsize : source.utf8ByteSize ≤ Offset.last := by decide
  have hlines : 1 + source.toList.count '\n' < Place.lastLine := by decide
  have hplace : c.place = { offset := 11, line := 3 } := by decide +kernel
  obtain ⟨rest, hrest, htokens, -⟩ := pulled_memoryless {} source 3 hsize hlines
  rw [hplace] at hrest htokens
  exact ⟨hsize, hlines, hplace, rest, hrest, htokens⟩

end Cursor

end ScriptFront
