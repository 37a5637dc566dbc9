/-
A walk over bytes stays between characters.

A walk and a cursor read the same source in two ways, the one by positions of bytes and with
cuts that can fail, the other by taking characters off a text. They keep the same pace: where
both have passed the same text, the walk comes back from its loops, none of its cuts fails,
and it hands out the token that the cursor hands out (`Walk.nextToken_eq`). Since the text
that the cursor has passed is made of whole characters, the walk stands between two of them.

The step has two parts. Blanks, line feeds and comments change nothing but the position and
the line (`nextToken_trivia`, by induction on the trivia); then the first byte decides as the
first character does, and one lemma for each class of tokens says that its loop ends where
the lexeme ends (`lexeme_eq`).
-/
import ScriptFront.Proofs.ByteWalk
import ScriptFront.Proofs.Interleaving
import ScriptFront.Proofs.OneReading

set_option autoImplicit false

namespace ScriptFront

open Text (IsBoundary cut byteAt? octets cut_eq byteAt?_cons_ascii byteAt?_end byteAt?_eq_some_iff
  byteLength_concat isBoundary_byteLength exists_octets_cons)
open Token (Kind Symbol IsWord IsNamePart IsNameStart IsDecimal isWordChar_iff isDigit_iff
  isLetter_iff IsLayout)

/-! ## The characters that loops look for -/

/-- The characters of names are ASCII, so a byte that continues or begins a longer character
never looks like one. -/
theorem Token.IsNamePart.toNat_lt {c : Char} (h : IsNamePart c) : c.toNat < 128 := by
  have hsize := Char.utf8Size_eq_one_iff.mp h.utf8Size_eq
  rw [UInt32.le_iff_toNat_le] at hsize
  exact Nat.lt_succ_of_le hsize

/-- No character beyond ASCII continues a word. -/
theorem isWordChar_of_le {c : Char} (hc : 128 ≤ c.toNat) : isWordChar c = false := by
  rw [Bool.eq_false_iff]
  intro hword
  have hlt := (isWordChar_iff.mp hword).toNat_lt
  omega

/-- No character beyond ASCII continues a number. -/
theorem isDigit_of_le {c : Char} (hc : 128 ≤ c.toNat) : c.isDigit = false := by
  rw [Bool.eq_false_iff]
  intro hdigit
  have hlt := Token.IsNamePart.toNat_lt (.inr (isDigit_iff.mp hdigit))
  omega

/-- No character beyond ASCII begins a word. -/
theorem isLetter_of_le {c : Char} (hc : 128 ≤ c.toNat) : isLetter c = false := by
  rw [Bool.eq_false_iff]
  intro hletter
  have hlt := Token.IsNamePart.toNat_lt (.inl (isLetter_iff.mp hletter))
  omega

theorem Token.Symbol.toNat_lt_of_ofChar? {c : Char} {a : Symbol} (h : Symbol.ofChar? c = some a) :
    c.toNat < 128 := by
  unfold Symbol.ofChar? at h
  split at h
  all_goals first
    | contradiction
    | decide

/-- No character beyond ASCII begins a symbol. -/
theorem ofChar?_of_le {c : Char} (hc : 128 ≤ c.toNat) : Symbol.ofChar? c = none := by
  rw [Option.eq_none_iff_forall_ne_some]
  intro a ha
  have hlt := Symbol.toNat_lt_of_ofChar? ha
  omega

/-- A text without a newline leaves the line as it is. -/
theorem lineAfter_append {text : List Char} (before : List Char) (h : '\n' ∉ text) :
    lineAfter (before ++ text) = lineAfter before := by
  rw [lineAfter, List.count_append, List.count_eq_zero_of_not_mem h]
  rfl

namespace Walk

open Outcome (bind_ok)

variable {d : Dialect} {fallback : Except WalkFault Nat} {source : String} {w : Walk}
  {before : List Char}

/-! ## Walks in a source -/

/-- The walk with another position behind `passed`, on the line that comes after it. -/
def reach (w : Walk) (passed : List Char) : Walk :=
  { w with current := byteLength passed, line := lineAfter passed }

/-- The walk has passed `before`. -/
structure Passed (w : Walk) (before : List Char) : Prop where
  current : w.current = byteLength before
  line : w.line = lineAfter before

/-- The walk has passed `before` and then one byte, with which a token begins. -/
structure Begun (w : Walk) (before : List Char) : Prop where
  start : w.start = byteLength before
  startLine : w.startLine = lineAfter before
  current : w.current = byteLength before + 1
  line : w.line = lineAfter before

/-! ## One lexeme -/

section Lexemes

variable {c : Char} {s : List Char}

/-- Cutting the lexeme off what is ahead cuts the whole source at a character boundary. -/
theorem toList_eq_lexeme {l : Lexeme} (h : source.toList = before ++ c :: s)
    (hl : Lexeme.ofHead d c s = l) : source.toList = before ++ l.text ++ l.rest := by
  rw [← hl, List.append_assoc, Lexeme.text_append_rest, h]

theorem toList_eq_concat (h : source.toList = before ++ c :: s) :
    source.toList = before ++ [c] ++ s := by
  rw [h, List.append_assoc]
  rfl

/-- A lexeme that is a token is cut out of the source. -/
theorem emit_lexeme (hw : w.Begun before) {l : Lexeme} {kind : Kind} (hkind : l.verdict = .ok kind)
    (h : source.toList = before ++ l.text ++ l.rest) :
    emit source (w.reach (before ++ l.text)) kind =
      pure (l.token (.through .start before) (.through .start (before ++ l.text)),
        w.reach (before ++ l.text)) := by
  have hcut : cut source (w.reach (before ++ l.text)).start (w.reach (before ++ l.text)).current =
      .ok (.ofList l.text) := by
    rw [reach, hw.start]
    exact cut_eq h
  rw [emit, hcut, bind_ok]
  simp only [Lexeme.token, hkind, Place.offset_start_through, Place.line_start_through, reach,
    hw.start, hw.startLine]

/-- The same of a walk that has only moved on, where there was no line feed to count. -/
theorem emit_lexeme_of_notMem (hw : w.Begun before) {l : Lexeme} {kind : Kind}
    (hkind : l.verdict = .ok kind) (hfeed : '\n' ∉ l.text)
    (h : source.toList = before ++ l.text ++ l.rest) :
    emit source { w with current := byteLength (before ++ l.text) } kind =
      pure (l.token (.through .start before) (.through .start (before ++ l.text)),
        w.reach (before ++ l.text)) := by
  have hreach : { w with current := byteLength (before ++ l.text) } = w.reach (before ++ l.text) := by
    rw [reach, lineAfter_append before hfeed, ← hw.line]
  rw [hreach]
  exact emit_lexeme hw hkind h

/-- The letters that are compared lie in the word, and all of them between characters. -/
theorem kindBetween_eq {text after : List Char} (hword : IsWord text)
    (h : source.toList = before ++ text ++ after) :
    kindBetween d source (byteLength before) (byteLength (before ++ text)) =
      .ok (d.wordKind text) := by
  rw [kindBetween, cut_eq h, Dialect.wordKind, Dialect.keyword?_eq_branch]
  dsimp only [bind, Except.bind]
  rw [String.toList_ofList]
  cases hbranch : d.branch? text with
  | none => rfl
  | some b =>
    have hinside : b.start ≤ text.length := Dialect.start_le_of_branch? b hbranch
    -- The first letters of a word are as many bytes, so the cut begins behind them.
    have hfirst : byteLength before + b.start = byteLength (before ++ text.take b.start) := by
      rw [byteLength_append, hword.byteLength_take hinside]
    have hsplit : before ++ text = before ++ text.take b.start ++ text.drop b.start := by
      rw [List.append_assoc, List.take_append_drop]
    have hcut : cut source (byteLength before + b.start) (byteLength (before ++ text)) =
        .ok (.ofList (text.drop b.start)) := by
      rw [hfirst, hsplit]
      exact cut_eq (by rw [h, hsplit])
    have hbytes : byteLength text = b.start + byteLength (text.drop b.start) := by
      conv_lhs => rw [← List.take_append_drop b.start text]
      rw [byteLength_append, hword.byteLength_take hinside]
    simp only [utf8ByteSize_ofList, hcut, Option.bind_some, Dialect.ending]
    by_cases htail : text.drop b.start = b.tail.toList
    · rw [if_pos htail, if_pos (by rw [hbytes, htail, utf8ByteSize_eq]), htail,
        String.ofList_toList, if_pos rfl]
      rfl
    · rw [if_neg htail]
      split
      · have hother : String.ofList (text.drop b.start) ≠ b.tail := by
          intro hsame
          rw [← hsame, String.toList_ofList] at htail
          exact htail rfl
        rw [if_neg hother]
        rfl
      · rfl

/-- The loop of a word comes to the end of the word. -/
theorem word_eq (hw : w.Begun before) (hc : IsNameStart c) (h : source.toList = before ++ c :: s) :
    word d source w =
      pure ((Lexeme.word d c s).token (.through .start before)
          (.through .start (before ++ (Lexeme.word d c s).text)),
        w.reach (before ++ (Lexeme.word d c s).text)) := by
  have hwhole := toList_eq_lexeme h (Lexeme.ofHead_of_isNameStart d s hc)
  have hword : IsWord (Lexeme.word d c s).text :=
    ⟨hc, fun x hx => isWordChar_iff.mp (forall_mem_takeWhile s x hx)⟩
  have hfeed : '\n' ∉ (Lexeme.word d c s).text := fun hmem =>
    absurd (hword.forall_mem _ hmem) (by decide)
  have hstop : whileAt source isWordChar w.current =
      pure (byteLength (before ++ (Lexeme.word d c s).text)) := by
    rw [hw.current, ← byteLength_concat (Token.IsNamePart.toNat_lt (.inl hc)),
      whileAt_passes (fun _ => isWordChar_of_le) (toList_eq_concat h), List.append_assoc]
    rfl
  have hkind : kindBetween d source w.start (byteLength (before ++ (Lexeme.word d c s).text)) =
      .ok (d.wordKind (Lexeme.word d c s).text) := by
    rw [hw.start]
    exact kindBetween_eq hword hwhole
  rw [word, hstop, pure_bind, hkind, bind_ok]
  exact emit_lexeme_of_notMem hw rfl hfeed hwhole

/-- The two loops of a numeral come to its end, with the point between them if there is one. -/
theorem numeral_eq (hw : w.Begun before) (hc : IsDecimal c)
    (h : source.toList = before ++ c :: s) :
    numeral source w =
      pure ((Lexeme.numeral c s).token (.through .start before)
          (.through .start (before ++ (Lexeme.numeral c s).text)),
        w.reach (before ++ (Lexeme.numeral c s).text)) := by
  have hdigit : ∀ x : Char, 128 ≤ x.toNat → x.isDigit = false := fun _ => isDigit_of_le
  have hfeed : '\n' ∉ (Lexeme.numeral c s).text := fun hmem =>
    absurd ((Lexeme.isNumeral_numeral s hc).forall_mem _ hmem) (by decide)
  have hstop : whileAt source Char.isDigit w.current =
      pure (byteLength (before ++ c :: s.takeWhile Char.isDigit)) := by
    rw [hw.current, ← byteLength_concat (Token.IsNamePart.toNat_lt (.inr hc)),
      whileAt_passes hdigit (toList_eq_concat h), List.append_assoc]
    rfl
  have hwhole : source.toList =
      before ++ c :: s.takeWhile Char.isDigit ++ s.dropWhile Char.isDigit := by
    rw [List.append_assoc, List.cons_append, List.takeWhile_append_dropWhile, h]
  have hemit : numeral source w =
      emit source { w with current := byteLength (before ++ (Lexeme.numeral c s).text) }
        .number := by
    rw [numeral, hstop, pure_bind, Lexeme.numeral]
    split
    · next hpoint =>
      obtain ⟨t, ht⟩ := List.head?_eq_some_iff.mp ((byteAt?_eq_some_iff hwhole (by decide)).mp hpoint)
      have hmore : whileAt source Char.isDigit
            (byteLength (before ++ c :: s.takeWhile Char.isDigit) + 1) =
          pure (byteLength (before ++ (c :: s.takeWhile Char.isDigit ++
            '.' :: t.takeWhile Char.isDigit))) := by
        rw [← byteLength_concat (c := '.') (by decide),
          whileAt_passes hdigit (toList_eq_concat (ht ▸ hwhole)), List.append_assoc,
          List.append_assoc]
        rfl
      rw [hmore, pure_bind, ht]
      rfl
    · next hpoint =>
      rw [byteAt?_eq_some_iff hwhole (by decide)] at hpoint
      split
      · next t ht =>
        rw [ht] at hpoint
        exact absurd rfl hpoint
      · rfl
  rw [hemit]
  exact emit_lexeme_of_notMem hw (Lexeme.verdict_numeral s c) hfeed
    (toList_eq_lexeme h (Lexeme.ofHead_of_isDecimal {} s hc))

/-- A symbol takes the equals sign behind it if the two make one. -/
theorem symbol_eq (hw : w.Begun before) {a : Symbol} (ha : Symbol.ofChar? c = some a)
    (h : source.toList = before ++ c :: s) :
    symbol source a w =
      pure ((Lexeme.symbol a c s).token (.through .start before)
          (.through .start (before ++ (Lexeme.symbol a c s).text)),
        w.reach (before ++ (Lexeme.symbol a c s).text)) := by
  have hstart : w.current = byteLength (before ++ [c]) := by
    rw [hw.current, byteLength_concat (Symbol.toNat_lt_of_ofChar? ha)]
  have hlone : { w with current := byteLength (before ++ [c]) } = w := by rw [← hstart]
  have hbehind : byteAt? source w.current = some '=' ↔ s.head? = some '=' := by
    rw [hstart]
    exact byteAt?_eq_some_iff (toList_eq_concat h) (by decide)
  have hemit : ∃ b, (Lexeme.symbol a c s).verdict = .ok (.symbol b) ∧
      symbol source a w =
        emit source { w with current := byteLength (before ++ (Lexeme.symbol a c s).text) }
          (.symbol b) := by
    rw [symbol, Lexeme.symbol.eq_def]
    cases hequal : a.withEqual? with
    | none => exact ⟨a, rfl, congrArg (emit source · _) hlone.symm⟩
    | some b =>
      dsimp only
      by_cases hnext : s.head? = some '='
      · obtain ⟨t, rfl⟩ := List.head?_eq_some_iff.mp hnext
        rw [if_pos (hbehind.mpr rfl), hstart, ← byteLength_concat (c := '=') (by decide),
          List.append_assoc]
        exact ⟨b, rfl, rfl⟩
      · rw [if_neg (mt hbehind.mp hnext)]
        split
        · exact absurd rfl hnext
        · exact ⟨a, rfl, congrArg (emit source · _) hlone.symm⟩
  have hfeed : '\n' ∉ (Lexeme.symbol a c s).text := by
    have hne : '\n' ≠ c := by
      rintro rfl
      contradiction
    rw [Lexeme.symbol.eq_def]
    split <;> simp [Lexeme.single, hne]
  obtain ⟨b, hkind, hemit⟩ := hemit
  rw [hemit]
  exact emit_lexeme_of_notMem hw hkind hfeed
    (toList_eq_lexeme h (Lexeme.ofHead_of_symbol {} s ha))

/-- The loop of a string comes to the next quote, or to the end of the source. -/
theorem quoted_eq (hw : w.Begun before) (h : source.toList = before ++ '"' :: s) :
    quoted source w =
      pure ((Lexeme.quoted '"' s).token (.through .start before)
          (.through .start (before ++ (Lexeme.quoted '"' s).text)),
        w.reach (before ++ (Lexeme.quoted '"' s).text)) := by
  have hstop : toQuote source w.current w.line =
      pure (byteLength (before ++ '"' :: s.takeWhile (· != '"')),
        lineAfter (before ++ '"' :: s.takeWhile (· != '"'))) := by
    have hstart : w.current = byteLength (before ++ ['"']) := by
      rw [hw.current, byteLength_concat (by decide)]
    have hline : w.line = lineAfter (before ++ ['"']) := by
      rw [hw.line, lineAfter_append before (by decide)]
    rw [hstart, hline, toQuote_passes (toList_eq_concat h), List.append_assoc]
    rfl
  have hwhole : source.toList =
      before ++ '"' :: s.takeWhile (· != '"') ++ s.dropWhile (· != '"') := by
    rw [List.append_assoc, List.cons_append, List.takeWhile_append_dropWhile, h]
  have hsize : source.utf8ByteSize =
      byteLength (before ++ '"' :: s.takeWhile (· != '"')) +
        byteLength (s.dropWhile (· != '"')) := by
    rw [utf8ByteSize_eq, hwhole, byteLength_append]
  have hquote := List.head?_dropWhile_not (· != '"') s
  rw [quoted, hstop, pure_bind]
  dsimp only
  cases hrest : s.dropWhile (· != '"') with
  | nil =>
    rw [hrest, byteLength_nil, Nat.add_zero] at hsize
    have hlexeme : Lexeme.quoted '"' s =
        { verdict := .error .unterminatedString, text := '"' :: s.takeWhile (· != '"'), rest := [] } := by
      rw [Lexeme.quoted, hrest]
    rw [if_pos hsize.le, hlexeme]
    simp only [refuse, reach, Lexeme.token, hw.start, Place.offset_start_through,
      Place.line_start_through]
  | cons q t =>
    rw [hrest] at hquote hsize hwhole
    obtain rfl : q = '"' := by simpa using hquote
    have hmore : ¬ source.utf8ByteSize ≤ byteLength (before ++ '"' :: s.takeWhile (· != '"')) := by
      have hpos := byteLength_pos (List.cons_ne_nil '"' t)
      omega
    have hlexeme : Lexeme.quoted '"' s =
        { verdict := .ok .string, text := '"' :: s.takeWhile (· != '"') ++ ['"'], rest := t } := by
      rw [Lexeme.quoted, hrest]
    have hreach : { w with
        current := byteLength (before ++ '"' :: s.takeWhile (· != '"')) + 1
        line := lineAfter (before ++ '"' :: s.takeWhile (· != '"')) } =
        w.reach (before ++ (Lexeme.quoted '"' s).text) := by
      rw [hlexeme, reach, ← List.append_assoc, byteLength_concat (by decide),
        lineAfter_concat _ (by decide)]
    rw [if_neg hmore, hreach]
    refine emit_lexeme hw (by rw [hlexeme]) ?_
    rw [hlexeme, hwhole, List.append_assoc, List.append_assoc, List.append_assoc]
    rfl

/-- The width that is read off the source is that of the character whose first byte was
passed, and there always is one: what would be done otherwise makes no difference. -/
theorem stray_eq (hw : w.Begun before) (hc : ¬ IsLayout c) (h : source.toList = before ++ c :: s) :
    stray fallback source w =
      pure ((Lexeme.single (.error .unexpectedCharacter) c s).token (.through .start before)
          (.through .start (before ++ [c])), w.reach (before ++ [c])) := by
  have hcut : cut source w.start source.utf8ByteSize = .ok (.ofList (c :: s)) := by
    rw [hw.start, utf8ByteSize_eq, h]
    exact cut_eq (by rw [h, List.append_nil])
  have hwidth : byteLength before + c.utf8Size = byteLength (before ++ [c]) := by
    rw [byteLength_append, byteLength_cons, byteLength_nil, Nat.add_zero]
  have hfeed : c ≠ '\n' := fun hfeed => hc (.inr (.inr (.inr hfeed)))
  rw [stray, hcut, bind_ok, String.toList_ofList, List.head?_cons]
  simp only [pure_bind, refuse, reach, Lexeme.single, Lexeme.token, hw.start, hw.line, hwidth,
    Place.offset_start_through, Place.line_start_through, lineAfter_concat before hfeed]

/-- **One lexeme.** The walk that has passed its first byte comes to its end with the same
token, and stands behind its text. -/
theorem lexeme_eq {b : Char} {t : List Char} (hw : w.Begun before) (hc : ¬ IsLayout c)
    (h : source.toList = before ++ c :: s) (hb : octets (c :: s) = b :: t) :
    lexeme d fallback source b w =
      pure ((Lexeme.ofHead d c s).token (.through .start before)
          (.through .start (before ++ (Lexeme.ofHead d c s).text)),
        w.reach (before ++ (Lexeme.ofHead d c s).text)) := by
  by_cases hascii : c.toNat < 128
  · obtain ⟨rfl, -⟩ := List.cons.inj ((Text.octets_ascii hascii s).symm.trans hb)
    by_cases hletter : IsNameStart c
    · rw [lexeme, if_pos (isLetter_iff.mpr hletter), Lexeme.ofHead_of_isNameStart d s hletter]
      exact word_eq hw hletter h
    rw [lexeme, if_neg (mt isLetter_iff.mp hletter)]
    by_cases hdigit : IsDecimal c
    · rw [if_pos (isDigit_iff.mpr hdigit), Lexeme.ofHead_of_isDecimal d s hdigit]
      exact numeral_eq hw hdigit h
    rw [if_neg (mt isDigit_iff.mp hdigit)]
    by_cases hquote : c = '"'
    · subst hquote
      rw [if_pos rfl, Lexeme.ofHead_quote]
      exact quoted_eq hw h
    rw [if_neg hquote]
    cases hsymbol : Symbol.ofChar? c with
    | some a =>
      rw [Lexeme.ofHead_of_symbol d s hsymbol]
      exact symbol_eq hw hsymbol h
    | none =>
      have hstray : Lexeme.ofHead d c s = Lexeme.single (.error .unexpectedCharacter) c s := by
        rw [Lexeme.ofHead, if_neg (mt isLetter_iff.mp hletter), if_neg (mt isDigit_iff.mp hdigit),
          if_neg hquote, hsymbol]
      rw [hstray]
      exact stray_eq hw hc h
  · -- Neither the character nor its first byte is any that is looked for.
    have hfirst : 128 ≤ b.toNat := by
      obtain ⟨b', t', hb', -, hlong⟩ := exists_octets_cons c s
      obtain ⟨rfl, -⟩ := List.cons.inj (hb.symm.trans hb')
      exact hlong hascii
    have hother : ∀ x : Char, 128 ≤ x.toNat →
        ¬ isLetter x = true ∧ ¬ x.isDigit = true ∧ x ≠ '"' ∧ Symbol.ofChar? x = none := by
      intro x hx
      refine ⟨by simp [isLetter_of_le hx], by simp [isDigit_of_le hx], ?_, ofChar?_of_le hx⟩
      rintro rfl
      exact absurd hx (by decide)
    obtain ⟨hletter, hdigit, hquote, hsymbol⟩ := hother b hfirst
    obtain ⟨hletter', hdigit', hquote', hsymbol'⟩ := hother c (Nat.le_of_not_lt hascii)
    have hstray : Lexeme.ofHead d c s = Lexeme.single (.error .unexpectedCharacter) c s := by
      rw [Lexeme.ofHead, if_neg hletter', if_neg hdigit', if_neg hquote', hsymbol']
    rw [lexeme, if_neg hletter, if_neg hdigit, if_neg hquote, hsymbol, hstray]
    exact stray_eq hw hc h

end Lexemes

/-! ## One token -/

/-- A round that answers ends the loop. -/
theorem nextToken_of_result {answer : Token × Walk}
    (h : tokenRound d fallback source w = pure (.inl answer)) :
    nextToken d fallback source w = pure answer := by
  rw [nextToken, Outcome.loop_eq, h, pure_bind]
  rfl

/-- A round that only passes trivia hands the walk to the next round. -/
theorem nextToken_of_again {w' : Walk} (h : tokenRound d fallback source w = pure (.inr w')) :
    nextToken d fallback source w = nextToken d fallback source w' := by
  rw [nextToken, Outcome.loop_eq, h, pure_bind]
  rfl

/-- On the way to the next token only the position, the line and the note are looked at. -/
theorem nextToken_congr {w' : Walk}
    (hskip : skipBlanks source w.current = skipBlanks source w'.current)
    (hline : w.line = w'.line) (hended : w.ended = w'.ended) :
    nextToken d fallback source w = nextToken d fallback source w' := by
  have hround : tokenRound d fallback source w = tokenRound d fallback source w' := by
    rw [tokenRound, tokenRound, hskip, hline, hended]
  rw [nextToken, nextToken, Outcome.loop_eq, Outcome.loop_eq, hround]

/-- A walk that has passed a text is the walk that reaches there. -/
theorem Passed.reach_eq (hw : w.Passed before) : w.reach before = w := by
  rw [reach, ← hw.current, ← hw.line]

theorem Passed.reach {passed : List Char} : (w.reach passed).Passed passed := ⟨rfl, rfl⟩

/-- What is passed over as one blank or comment leads to the same token. -/
theorem nextToken_skip (hw : w.Passed before) {text : List Char} (hfeed : '\n' ∉ text)
    (hskip : skipBlanks source (byteLength before) =
      skipBlanks source (byteLength (before ++ text))) :
    nextToken d fallback source w = nextToken d fallback source (w.reach (before ++ text)) := by
  refine nextToken_congr ?_ ?_ rfl
  · rw [hw.current, hskip]
    rfl
  · rw [hw.line, Walk.reach, lineAfter_append before hfeed]

/-- A line feed leads to the same token, too, one line on. -/
theorem nextToken_feed (hw : w.Passed before) {rest : List Char}
    (h : source.toList = before ++ '\n' :: rest) :
    nextToken d fallback source w = nextToken d fallback source (w.reach (before ++ ['\n'])) := by
  have hskip : skipBlanks source w.current = pure (byteLength before) := by
    rw [hw.current]
    refine skipBlanks_stop h ?_ nofun
    rintro c (rfl | rfl | rfl)
    all_goals simp
  have hline : nextLine w.line = lineAfter (before ++ ['\n']) := by
    rw [hw.line, ← foldl_countLine before ['\n']]
    rfl
  have hround : tokenRound d fallback source w = pure (.inr { w with
      start := byteLength before, current := byteLength (before ++ ['\n']),
      line := lineAfter (before ++ ['\n']), startLine := w.line }) := by
    rw [tokenRound, hskip, pure_bind]
    dsimp only
    rw [byteAt?_cons_ascii h (by decide)]
    dsimp only
    rw [if_pos rfl, hline, byteLength_concat (by decide)]
  rw [nextToken_of_again hround]
  exact nextToken_congr rfl rfl rfl

/-- **Trivia is passed over.** The induction is on the trivia; what is passed over in one
round of the loops is one case of it. -/
theorem nextToken_trivia {gap rest : List Char} (htrivia : Trivia gap rest) (hw : w.Passed before)
    (h : source.toList = before ++ (gap ++ rest)) :
    nextToken d fallback source w = nextToken d fallback source (w.reach (before ++ gap)) := by
  induction htrivia generalizing w before with
  | nil => rw [List.append_nil, hw.reach_eq]
  | @layout c s after hc _ ih =>
    have hstep : nextToken d fallback source w =
        nextToken d fallback source (w.reach (before ++ [c])) := by
      by_cases hfeed : c = '\n'
      · subst hfeed
        exact nextToken_feed hw h
      · have hblank : c = ' ' ∨ c = '\t' ∨ c = '\r' := by
          rcases hc with hc | hc | hc | hc
          · exact .inl hc
          · exact .inr (.inl hc)
          · exact .inr (.inr hc)
          · exact absurd hc hfeed
        have hother : '\n' ∉ [c] := by simpa using Ne.symm hfeed
        exact nextToken_skip hw hother (skipBlanks_blank hblank h)
    have hsplit : before ++ c :: s = before ++ [c] ++ s := by rw [List.append_assoc]; rfl
    rw [hstep, ih Passed.reach (by rw [h, List.append_assoc]; rfl), hsplit]
    rfl
  | @comment body s after hbody hend _ ih =>
    have hwhole : source.toList = before ++ '/' :: '/' :: (body ++ (s ++ after)) := by
      rw [h]
      simp
    have hfeed : '\n' ∉ '/' :: '/' :: body := by simpa using hbody
    have hsplit : before ++ '/' :: '/' :: (body ++ s) = before ++ '/' :: '/' :: body ++ s := by simp
    rw [nextToken_skip hw hfeed (skipBlanks_comment hbody hend hwhole),
      ih Passed.reach (by rw [hwhole]; simp), hsplit]
    rfl

/-- Where nothing is left, the walk comes to the end token. -/
theorem nextToken_end (hw : w.Passed before) (h : source.toList = before) :
    nextToken d fallback source w = pure (.atEnd (.through .start before),
      { w with start := byteLength before, startLine := lineAfter before }) := by
  have hwhole : source.toList = before ++ [] := by rw [h, List.append_nil]
  have hcut : cut source (byteLength before) (byteLength (before ++ [])) = .ok "" :=
    cut_eq (h.trans (by rw [List.append_nil, List.append_nil]))
  rw [List.append_nil] at hcut
  have hskip : skipBlanks source w.current = pure (byteLength before) := by
    rw [hw.current]
    exact skipBlanks_of_not_beginsTrivia hwhole not_beginsTrivia_nil
  apply nextToken_of_result
  rw [tokenRound, hskip, pure_bind, byteAt?_end h]
  dsimp only
  rw [emit, hcut, bind_ok, pure_bind, ← hw.current, ← hw.line]
  simp only [Token.atEnd, Place.offset_start_through, Place.line_start_through, hw.current, hw.line]

/-- Where no trivia comes next, the walk comes to the end of one lexeme. -/
theorem nextToken_lexeme (hw : w.Passed before) {a : Char} {s : List Char}
    (hbegins : ¬ BeginsTrivia (a :: s)) (h : source.toList = before ++ a :: s) :
    nextToken d fallback source w =
      pure ((Lexeme.ofHead d a s).token (.through .start before)
          (.through .start (before ++ (Lexeme.ofHead d a s).text)),
        { w.reach (before ++ (Lexeme.ofHead d a s).text) with
          start := byteLength before
          startLine := lineAfter before }) := by
  have hlayout : ¬ IsLayout a := fun ha => hbegins (.inl ⟨a, s, rfl, ha⟩)
  obtain ⟨b, t, hb, -, -⟩ := exists_octets_cons a s
  have hfirst : byteAt? source (byteLength before) = some b := by
    rw [Text.byteAt?_head h, hb, List.head?_cons]
  have hfeed : b ≠ '\n' := by
    rintro rfl
    have ha := (byteAt?_eq_some_iff h (by decide)).mp hfirst
    exact hlayout (.inr (.inr (.inr (Option.some.inj ha))))
  have hskip : skipBlanks source w.current = pure (byteLength before) := by
    rw [hw.current]
    exact skipBlanks_of_not_beginsTrivia h hbegins
  apply nextToken_of_result
  rw [tokenRound, hskip, pure_bind, hfirst]
  dsimp only
  rw [if_neg hfeed]
  have hbegun : Begun { w with
      start := byteLength before, current := byteLength before + 1, startLine := w.line } before :=
    ⟨rfl, hw.line, rfl, hw.line⟩
  rw [lexeme_eq hbegun hlayout h hb, pure_bind, hw.line]
  rfl

/-- The walk and the cursor have passed the same text of the source, and the last token of
the walk begins between two characters of it. -/
structure Follows (d : Dialect) (source : String) (w : Walk) (c : Cursor) (before : List Char) :
    Prop where
  walk : w.Passed before
  cursor : c.Passed source.toList before
  dialect : c.dialect = d
  ended : w.ended = c.ended
  start : ∃ s t, before = s ++ t ∧ w.start = byteLength s

/-- **The walk keeps pace with the cursor.** It comes back from its loops, no cut fails, and
it hands out the token that is pulled. -/
theorem nextToken_eq (fallback : Except WalkFault Nat) {c : Cursor}
    (hw : Follows d source w c before) :
    ∃ w' before', nextToken d fallback source w = pure (c.pull.1, w') ∧
      Follows d source w' c.pull.2 before' := by
  obtain ⟨gap, rest, hsplit, htrivia, hbegins⟩ := exists_trivia c.rest
  have hwhole : source.toList = before ++ gap ++ rest := by
    rw [List.append_assoc, ← hsplit, hw.cursor.whole]
  have hpull : skipTrivia c.place false c.rest = (.through .start (before ++ gap), rest) := by
    rw [hsplit, skipTrivia_append _ htrivia hbegins, hw.cursor.place, Place.through_append]
  rw [nextToken_trivia htrivia hw.walk (by rw [hwhole, List.append_assoc])]
  cases rest with
  | nil =>
    have hpulled : c.pull = (Token.atEnd (.through .start (before ++ gap)),
        { c with place := .through .start (before ++ gap), rest := [] }) := by
      rw [Cursor.pull, hpull]
    rw [List.append_nil] at hwhole
    rw [nextToken_end Passed.reach hwhole, hpulled]
    exact ⟨_, before ++ gap, rfl, ⟨rfl, rfl⟩, ⟨rfl, by rw [hwhole, List.append_nil]⟩, hw.dialect,
      hw.ended, before ++ gap, [], (List.append_nil _).symm, rfl⟩
  | cons a s =>
    have hpulled : c.pull = ((Lexeme.ofHead d a s).token (.through .start (before ++ gap))
          (.through .start (before ++ gap ++ (Lexeme.ofHead d a s).text)),
        { c with
          place := .through .start (before ++ gap ++ (Lexeme.ofHead d a s).text)
          rest := (Lexeme.ofHead d a s).rest }) := by
      rw [Cursor.pull, hpull, hw.dialect]
      simp only [Place.through_append]
    rw [nextToken_lexeme Passed.reach hbegins hwhole, hpulled]
    exact ⟨_, before ++ gap ++ (Lexeme.ofHead d a s).text, rfl, ⟨rfl, rfl⟩,
      ⟨rfl, (toList_eq_lexeme hwhole rfl).symm⟩, hw.dialect, hw.ended, before ++ gap, _, rfl, rfl⟩

/-! ## Calls -/

section Calls

variable {c : Cursor}

/-- One call keeps pace, in whichever way the token is asked for. -/
theorem call_eq (fallback : Except WalkFault Nat) (hw : Follows d source w c before) (a : Cursor.Call) :
    ∃ w' before', call d fallback source w a = pure ((c.call a).1, w') ∧
      Follows d source w' (c.call a).2 before' := by
  obtain ⟨w', before', htoken, hnext⟩ := nextToken_eq fallback hw
  cases a with
  | pull =>
    refine ⟨w', before', ?_, hnext⟩
    rw [call, htoken, pure_bind]
    rfl
  | next =>
    by_cases hended : c.ended = true
    · rw [call, hw.ended, if_pos hended, Cursor.call_next_of_ended hended]
      exact ⟨w, before, rfl, hw⟩
    · rw [call, hw.ended, if_neg hended, htoken, pure_bind,
        Cursor.call_next_of_not_ended (Bool.not_eq_true _ ▸ hended)]
      exact ⟨_, before', rfl, ⟨hnext.walk.current, hnext.walk.line⟩,
        ⟨hnext.cursor.place, hnext.cursor.whole⟩, hnext.dialect, rfl, hnext.start⟩

/-- Any calls keep pace. The induction is on the calls. -/
theorem run_eq (fallback : Except WalkFault Nat) (hw : Follows d source w c before)
    (calls : List Cursor.Call) :
    ∃ w' before', run d fallback source w calls = pure (c.answers calls, w') ∧
      Follows d source w' (c.after calls) before' := by
  induction calls generalizing w c before with
  | nil => exact ⟨w, before, rfl, hw⟩
  | cons a calls ih =>
    obtain ⟨w₁, before₁, hcall, hw₁⟩ := call_eq fallback hw a
    obtain ⟨w₂, before₂, hrun, hw₂⟩ := ih hw₁
    refine ⟨w₂, before₂, ?_, hw₂⟩
    rw [run, hcall, pure_bind]
    dsimp only
    rw [hrun, pure_bind]
    rfl

/-- At the start of a source both walks stand at its first character. -/
theorem follows_ofSource (d : Dialect) (source : String) :
    Follows d source begin (.ofSource d source) [] :=
  ⟨⟨rfl, rfl⟩, Cursor.passed_ofSource d source, rfl, rfl, [], [], rfl, rfl⟩

end Calls

/-- A walk that follows a cursor stands between two characters of the source, and so does
the beginning of its last token. -/
theorem Follows.boundaries {c : Cursor} (hw : Follows d source w c before) :
    w.start ≤ w.current ∧ w.current ≤ source.utf8ByteSize ∧
      IsBoundary source w.start ∧ IsBoundary source w.current := by
  obtain ⟨s, t, rfl, hstart⟩ := hw.start
  have hwhole := hw.cursor.whole
  rw [hstart, hw.walk.current, utf8ByteSize_eq, ← hwhole]
  refine ⟨?_, ?_, ?_, ?_⟩
  · rw [byteLength_append]
    exact Nat.le_add_right _ _
  · simp only [byteLength_append]
    omega
  · rw [List.append_assoc] at hwhole
    exact isBoundary_byteLength hwhole.symm
  · exact isBoundary_byteLength hwhole.symm

/-- **A walk over bytes stays between characters.** Texts can be cut out of a source between
two positions in order that both lie between characters, and not otherwise; yet after any
calls the walk has come back without a fault, whatever would be done for want of a character,
with the answers of the cursor. It stands where the cursor stands, which is between two
characters, behind the beginning of its last token, which is so, too. -/
theorem run_boundaries (d : Dialect) (fallback : Except WalkFault Nat) (source : String)
    (calls : List Cursor.Call) :
    (∀ i j, (∃ text, cut source i j = .ok text) ↔
      i ≤ j ∧ j ≤ source.utf8ByteSize ∧ IsBoundary source i ∧ IsBoundary source j) ∧
    ∃ w, (run d fallback source begin calls).run =
        .some (.ok ((Cursor.ofSource d source).answers calls, w)) ∧
      w.current = ((Cursor.ofSource d source).after calls).place.offset ∧
      w.start ≤ w.current ∧ w.current ≤ source.utf8ByteSize ∧
      IsBoundary source w.start ∧ IsBoundary source w.current := by
  constructor
  · intro i j
    rw [cut]
    split
    · next h =>
      have hinside : j ≤ source.utf8ByteSize := h.2.2.le_utf8ByteSize
      exact iff_of_true ⟨_, rfl⟩ ⟨h.1, hinside, h.2⟩
    · next h =>
      refine iff_of_false ?_ fun hbounds => h ⟨hbounds.1, hbounds.2.2⟩
      rintro ⟨text, htext⟩
      contradiction
  · obtain ⟨w, before, hrun, hw⟩ := run_eq fallback (follows_ofSource d source) calls
    refine ⟨w, congrArg ExceptT.run hrun, ?_, hw.boundaries⟩
    rw [hw.walk.current, hw.cursor.place, Place.offset_start_through]

/-- A cut after the first byte of a character of two bytes fails. -/
example : cut "é+" 0 1 = .error (.cut 0 1) ∧ cut "é+" 0 2 = .ok "é" := by decide +kernel

end Walk

end ScriptFront
