/-
What `Lexeme.ofHead` cuts off is the longest reading.

There is one lemma for each branch of `Lexeme.ofHead`. In the branches of words
and numerals every text of the class that lies at the head of the source lies
at the head of the lexeme, because `takeWhile` stops at the first character
that the class does not allow (`prefix_takeWhile`). In the branch of quotes
there is one reading only: the next quote ends it, and without a next quote it
is the rest of the source. In the branch of symbols there are at most two.
-/
import ScriptFront.Cursor
import ScriptFront.Proofs.TokenClass

set_option autoImplicit false

namespace ScriptFront

open Token

/-! ## Stretches of characters -/

section Stretches

variable {α : Type} {p : α → Bool}

/-- A stretch of allowed characters at the head of a text is part of the longest one. -/
theorem prefix_takeWhile {t s : List α} (hall : ∀ x ∈ t, p x = true) (hpre : t <+: s) :
    t <+: s.takeWhile p := by
  obtain ⟨u, rfl⟩ := hpre
  rw [List.takeWhile_append_of_pos hall]
  exact List.prefix_append ..

theorem forall_mem_takeWhile (s : List α) : ∀ x ∈ s.takeWhile p, p x = true :=
  List.all_eq_true.mp List.all_takeWhile

/-- A stretch that a character stops is the longest one, and that character
begins what is left. -/
theorem span_of_stop {t u : List α} {a : α} (hall : ∀ x ∈ t, p x = true) (ha : p a = false) :
    (t ++ a :: u).takeWhile p = t ∧ (t ++ a :: u).dropWhile p = a :: u := by
  have hstop : ¬ p a = true := Bool.not_eq_true _ ▸ ha
  rw [List.takeWhile_append_of_pos hall, List.dropWhile_append_of_pos hall,
    List.takeWhile_cons_of_neg hstop, List.dropWhile_cons_of_neg hstop, List.append_nil]
  exact ⟨rfl, rfl⟩

end Stretches

namespace Token

variable {d : Dialect} {kind : Kind} {lexeme : String} {text after : List Char}

/-! ## Readings by their first character -/

/-- A reading that is longest because every other one lies at its head, and
shows what its text says. -/
theorem Longest.of_within {f : List Char → Kind}
    (hread : Reading d (f text) (String.ofList text) text after)
    (hpre : ∀ kind' lexeme' text' after', text' ++ after' = text ++ after →
      Reading d kind' lexeme' text' after' →
        text' <+: text ∧ kind' = f text' ∧ lexeme' = String.ofList text') :
    Longest d (f text) (String.ofList text) text after := by
  refine ⟨hread, ?_⟩
  intro kind' lexeme' text' after' hsrc h
  obtain ⟨hp, rfl, rfl⟩ := hpre _ _ _ _ hsrc h
  -- Of two readings of one length the other is the whole text, so they agree.
  rcases Nat.lt_or_ge text'.length text.length with hlt | hge
  · exact .inl hlt
  · obtain rfl := hp.eq_of_length_le hge
    exact .inr ⟨rfl, rfl, rfl⟩

/-- A reading takes at least one character. -/
theorem Reading.ne_nil (h : Reading d kind lexeme text after) : text ≠ [] := by
  cases h with
  | token hspell => exact hspell.ne_nil
  | unterminated _ | unexpected _ _ => exact List.cons_ne_nil _ _

/-- No text is read as the end of the source. -/
theorem Reading.kind_ne_eof (h : Reading d kind lexeme text after) : kind ≠ .eof := by
  cases h with
  | token hspell => exact hspell.kind_ne.2
  | unterminated _ | unexpected _ _ => exact nofun

/-- What is shown is the text that is read, unless it is a message. -/
theorem Reading.lexeme_eq (h : Reading d kind lexeme text after) (hkind : kind ≠ .error) :
    lexeme = String.ofList text := by
  cases h with
  | token _ => rfl
  | unterminated _ | unexpected _ _ => exact absurd rfl hkind

/-- What is read without an error is a spelling of its class. -/
theorem Reading.spelling_of_ne_error (h : Reading d kind lexeme text after)
    (hkind : kind ≠ .error) : Spelling d kind text := by
  cases h with
  | token hspell => exact hspell
  | unterminated _ | unexpected _ _ => exact absurd rfl hkind

/-- A reading begins with the first character that there is. -/
theorem Reading.exists_cons {c : Char} {s : List Char} (h : Reading d kind lexeme text after)
    (hsrc : text ++ after = c :: s) : ∃ t, text = c :: t ∧ t ++ after = s := by
  obtain ⟨a, t, rfl⟩ := List.exists_cons_of_ne_nil h.ne_nil
  obtain ⟨rfl, rfl⟩ := List.cons.inj hsrc
  exact ⟨t, rfl, rfl⟩

/-- A character that begins a token, and is no quote, begins nothing else. -/
theorem Reading.spelling {c : Char} {t : List Char} (h : Reading d kind lexeme text after)
    (ht : text = c :: t) (hstart : ∃ k w, Spelling d k (c :: w)) (hquote : c ≠ '"') :
    Spelling d kind text ∧ lexeme = String.ofList text := by
  cases h with
  | token hspell => exact ⟨hspell, rfl⟩
  | unterminated _ =>
    obtain ⟨rfl, -⟩ := List.cons.inj ht
    exact absurd rfl hquote
  | unexpected hnone _ =>
    obtain ⟨rfl, -⟩ := List.cons.inj ht
    obtain ⟨k, w, hw⟩ := hstart
    exact absurd hw (hnone k w)

/-- What begins like a name is read as a word, and has the class of that word. -/
theorem Reading.of_isNameStart {c : Char} {t : List Char} (h : Reading d kind lexeme text after)
    (ht : text = c :: t) (hc : IsNameStart c) :
    IsWord text ∧ kind = d.wordKind text ∧ lexeme = String.ofList text := by
  have hquote : c ≠ '"' := by
    rintro rfl
    exact absurd hc (by decide)
  obtain ⟨hspell, hlex⟩ := h.spelling ht (exists_spelling_iff.mpr (.inl hc)) hquote
  rcases hspell.head ht with ⟨-, hword, hkind⟩ | ⟨hd, -⟩ | ⟨hq, -⟩ | ⟨a, b, ha, -⟩
  · exact ⟨hword, hkind, hlex⟩
  · exact absurd hd (not_isDecimal_of_isNameStart hc)
  · exact absurd hq hquote
  · exact absurd hc (Symbol.ofChar?_separate ha).1

/-- What begins with a digit is read as a numeral. -/
theorem Reading.of_isDecimal {c : Char} {t : List Char} (h : Reading d kind lexeme text after)
    (ht : text = c :: t) (hc : IsDecimal c) :
    IsNumeral text ∧ kind = .number ∧ lexeme = String.ofList text := by
  have hquote : c ≠ '"' := by
    rintro rfl
    exact absurd hc (by decide)
  obtain ⟨hspell, hlex⟩ := h.spelling ht (exists_spelling_iff.mpr (.inr (.inl hc))) hquote
  rcases hspell.head ht with ⟨hn, -⟩ | ⟨-, hnum, hkind⟩ | ⟨hq, -⟩ | ⟨a, b, ha, -⟩
  · exact absurd hc (not_isDecimal_of_isNameStart hn)
  · exact ⟨hnum, hkind, hlex⟩
  · exact absurd hq hquote
  · exact absurd hc (Symbol.ofChar?_separate ha).2.1

/-- What begins like a symbol is read as that symbol, or as the one that it forms with an equals
sign behind it. -/
theorem Reading.of_symbol {c : Char} {t : List Char} {a : Symbol}
    (h : Reading d kind lexeme text after) (ht : text = c :: t) (ha : Symbol.ofChar? c = some a) :
    lexeme = String.ofList text ∧ ∃ b, kind = .symbol b ∧
      ((t = [] ∧ b = a) ∨ (t = ['='] ∧ a.withEqual? = some b)) := by
  obtain ⟨hname, hdec, hquote, -⟩ := Symbol.ofChar?_separate ha
  obtain ⟨hspell, hlex⟩ :=
    h.spelling ht (exists_spelling_iff.mpr (.inr (.inr (.inr ⟨a, ha⟩)))) hquote
  rcases hspell.head ht with ⟨hn, -⟩ | ⟨hd, -⟩ | ⟨hq, -⟩ | ⟨a', b, ha', hkind, hb⟩
  · exact absurd hn hname
  · exact absurd hd hdec
  · exact absurd hq hquote
  · obtain rfl := Option.some.inj (ha.symm.trans ha')
    exact ⟨hlex, b, hkind, hb⟩

/-- What begins with a quote is read as a string, or as an error if the source ends before it is
closed. -/
theorem Reading.of_quote {t : List Char} (h : Reading d kind lexeme text after)
    (ht : text = '"' :: t) :
    (kind = .string ∧ lexeme = String.ofList text ∧ ∃ body, '"' ∉ body ∧ t = body ++ ['"']) ∨
    (kind = .error ∧ lexeme = "unterminated string" ∧ '"' ∉ t ∧ after = []) := by
  cases h with
  | token hspell =>
    rcases hspell.head ht with ⟨hn, -⟩ | ⟨hd, -⟩ | ⟨-, hkind, hbody⟩ | ⟨a, b, ha, -⟩
    · exact absurd hn (by decide)
    · exact absurd hd (by decide)
    · exact .inl ⟨hkind, rfl, hbody⟩
    · exact absurd rfl (Symbol.ofChar?_separate ha).2.2.1
  | unterminated hbody =>
    obtain ⟨-, rfl⟩ := List.cons.inj ht
    exact .inr ⟨rfl, rfl, hbody, rfl⟩
  | unexpected hnone _ =>
    obtain ⟨rfl, -⟩ := List.cons.inj ht
    exact absurd (spelling_empty d) (hnone _ _)

/-- A character that no spelling begins with is read as an error of its own. -/
theorem Reading.of_stray {c : Char} {t : List Char} (h : Reading d kind lexeme text after)
    (ht : text = c :: t) (hnone : ∀ k w, ¬ Spelling d k (c :: w)) :
    t = [] ∧ kind = .error ∧ lexeme = "Unexpected character." := by
  cases h with
  | token hspell => exact absurd (ht ▸ hspell) (hnone _ _)
  | unterminated _ =>
    obtain ⟨rfl, -⟩ := List.cons.inj ht
    exact absurd (spelling_empty d) (hnone _ _)
  | unexpected _ _ =>
    obtain ⟨-, rfl⟩ := List.cons.inj ht
    exact ⟨rfl, rfl, rfl⟩

end Token

namespace Lexeme

variable (d : Dialect) {c : Char} (s : List Char)

/-! ## The branches -/

/-- A lexeme that begins as a name is a word. -/
theorem ofHead_of_isNameStart (hc : IsNameStart c) : ofHead d c s = word d c s :=
  if_pos (isLetter_iff.mpr hc)

/-- A lexeme that begins with a digit is a numeral. -/
theorem ofHead_of_isDecimal (hc : IsDecimal c) : ofHead d c s = numeral c s := by
  have hletter : ¬ isLetter c = true := fun h =>
    not_isDecimal_of_isNameStart (isLetter_iff.mp h) hc
  rw [ofHead, if_neg hletter, if_pos (isDigit_iff.mpr hc)]

theorem ofHead_quote : ofHead d '"' s = quoted '"' s := rfl

/-- A character that begins a symbol goes to the branch of symbols. -/
theorem ofHead_of_symbol {a : Symbol} (ha : Symbol.ofChar? c = some a) :
    ofHead d c s = symbol a c s := by
  obtain ⟨hname, hdec, hquote, -⟩ := Symbol.ofChar?_separate ha
  rw [ofHead, if_neg (mt isLetter_iff.mp hname), if_neg (mt isDigit_iff.mp hdec),
    if_neg hquote, ha]

/-- A character that no spelling begins with goes to the branch of strays. -/
theorem ofHead_of_stray (hnone : ∀ k w, ¬ Spelling d k (c :: w)) :
    ofHead d c s = single (.error .unexpectedCharacter) c s := by
  have hstart : ¬ (IsNameStart c ∨ IsDecimal c ∨ c = '"' ∨ ∃ a, Symbol.ofChar? c = some a) :=
    fun h => (exists_spelling_iff.mpr h).elim fun k ⟨w, hw⟩ => hnone k w hw
  have hsymbol : Symbol.ofChar? c = none := by
    rw [Option.eq_none_iff_forall_ne_some]
    exact fun a ha => hstart (.inr (.inr (.inr ⟨a, ha⟩)))
  rw [ofHead, if_neg fun h => hstart (.inl (isLetter_iff.mp h)),
    if_neg fun h => hstart (.inr (.inl (isDigit_iff.mp h))),
    if_neg fun h => hstart (.inr (.inr (.inl h))), hsymbol]

/-! ## Words -/

/-- **A word is the longest reading** at a letter: it stops where the next character is no part
of a name. -/
theorem longest_word (hc : IsNameStart c) :
    Longest d (d.wordKind (word d c s).text) (String.ofList (word d c s).text)
      (word d c s).text (word d c s).rest := by
  have hsrc : (word d c s).text ++ (word d c s).rest = c :: s :=
    congrArg (c :: ·) List.takeWhile_append_dropWhile
  have hword : IsWord (word d c s).text :=
    ⟨hc, fun x hx => isWordChar_iff.mp (forall_mem_takeWhile s x hx)⟩
  refine .of_within (.token (spelling_of_isWord d hword)) ?_
  intro kind' lexeme' text' after' hsame h
  obtain ⟨t, ht, hs⟩ := h.exists_cons (hsame.trans hsrc)
  obtain ⟨hword', hkind, hlex⟩ := h.of_isNameStart ht hc
  refine ⟨?_, hkind, hlex⟩
  subst ht
  -- The other reading is a word too, so `takeWhile` does not stop inside it.
  have hall : ∀ x ∈ t, isWordChar x = true := fun x hx => isWordChar_iff.mpr (hword'.2 x hx)
  exact (List.prefix_cons_inj c).mpr (prefix_takeWhile hall ⟨after', hs⟩)

/-! ## Numerals -/

theorem verdict_numeral (c : Char) : (numeral c s).verdict = .ok .number := by
  rw [numeral]
  split <;> rfl

/-- What the branch of numerals reads is a numeral, with a fraction or without. -/
theorem isNumeral_numeral (hc : IsDecimal c) : IsNumeral (numeral c s).text := by
  have hwhole : ∀ x ∈ c :: s.takeWhile Char.isDigit, IsDecimal x := by
    intro x hx
    rcases List.mem_cons.mp hx with rfl | hx
    · exact hc
    · exact isDigit_iff.mp (forall_mem_takeWhile s x hx)
  rw [numeral]
  split
  · next t _ =>
    exact .fraction (List.cons_ne_nil _ _) hwhole
      fun x hx => isDigit_iff.mp (forall_mem_takeWhile t x hx)
  · exact .whole (List.cons_ne_nil _ _) hwhole

/-- Every numeral at the head of a text is part of what `numeral` cuts off. If
it has a dot, the dot is the one that stops the digits. -/
theorem prefix_numeral {w u : List Char} (hw : IsNumeral w) (hsrc : w ++ u = c :: s)
    (hc : IsDecimal c) : w <+: (numeral c s).text := by
  have hdigits : (c :: s).takeWhile Char.isDigit = c :: s.takeWhile Char.isDigit :=
    List.takeWhile_cons_of_pos (isDigit_iff.mpr hc)
  have hrest : (c :: s).dropWhile Char.isDigit = s.dropWhile Char.isDigit :=
    List.dropWhile_cons_of_pos (isDigit_iff.mpr hc)
  cases hw with
  | whole _ hall =>
    have hpre : w <+: c :: s.takeWhile Char.isDigit :=
      hdigits ▸ prefix_takeWhile (fun x hx => isDigit_iff.mpr (hall x hx)) ⟨u, hsrc⟩
    rw [numeral]
    split
    · exact hpre.trans (List.prefix_append ..)
    · exact hpre
  | @fraction v f _ hall hfrac =>
    -- The dot of the numeral is no digit, so the digits of the text stop there.
    have hsrc' : v ++ '.' :: (f ++ u) = c :: s := by rw [← hsrc]; simp
    obtain ⟨htake, hdrop⟩ := span_of_stop (p := Char.isDigit) (t := v) (a := '.') (u := f ++ u)
      (fun x hx => isDigit_iff.mpr (hall x hx)) rfl
    rw [hsrc', hdigits] at htake
    rw [hsrc', hrest] at hdrop
    have hpre : f <+: (f ++ u).takeWhile Char.isDigit :=
      prefix_takeWhile (fun x hx => isDigit_iff.mpr (hfrac x hx)) (List.prefix_append ..)
    rw [numeral, hdrop]
    simp only [htake]
    exact (List.prefix_append_right_inj v).mpr ((List.prefix_cons_inj '.').mpr hpre)

/-- **A numeral is the longest reading** at a digit. -/
theorem longest_numeral (hc : IsDecimal c) :
    Longest d .number (String.ofList (numeral c s).text) (numeral c s).text
      (numeral c s).rest := by
  have hsrc : (numeral c s).text ++ (numeral c s).rest = c :: s :=
    ofHead_of_isDecimal d s hc ▸ text_append_rest d c s
  refine .of_within (f := fun _ => .number) (.token (.number (isNumeral_numeral s hc))) ?_
  intro kind' lexeme' text' after' hsame h
  have hsrc' : text' ++ after' = c :: s := hsame.trans hsrc
  obtain ⟨t, ht, -⟩ := h.exists_cons hsrc'
  obtain ⟨hnum, hkind, hlex⟩ := h.of_isDecimal ht hc
  exact ⟨prefix_numeral s hnum hsrc' hc, hkind, hlex⟩

/-! ## Strings -/

/-- A stretch without a quote that a quote ends is found by looking for the quote. -/
theorem span_of_quote {body u : List Char} (hbody : '"' ∉ body) :
    (body ++ '"' :: u).takeWhile (· != '"') = body ∧
      (body ++ '"' :: u).dropWhile (· != '"') = '"' :: u := by
  refine span_of_stop (fun x hx => ?_) rfl
  rw [bne_iff_ne]
  rintro rfl
  exact hbody hx

/-- A text from its opening quote to the next one is a string, and nothing else
that begins there can be read. -/
theorem longest_string {body u : List Char} (hbody : '"' ∉ body) :
    Longest d .string (String.ofList ('"' :: (body ++ ['"']))) ('"' :: (body ++ ['"'])) u := by
  refine ⟨.token (.string hbody), ?_⟩
  intro kind' lexeme' text' after' hsame h
  have hsrc : text' ++ after' = '"' :: (body ++ '"' :: u) := by rw [hsame]; simp
  obtain ⟨t, rfl, hs⟩ := h.exists_cons hsrc
  rcases h.of_quote rfl with ⟨rfl, rfl, body', hbody', rfl⟩ | ⟨-, -, hnone, rfl⟩
  · -- Both bodies run up to the first quote of the same text.
    have hs' : body' ++ '"' :: after' = body ++ '"' :: u := by rw [← hs]; simp
    have hsame' : body' = body := by
      rw [← (span_of_quote hbody').1, hs', (span_of_quote hbody).1]
    subst hsame'
    exact .inr ⟨rfl, rfl, rfl⟩
  · -- The other reading would have no second quote, but there is one.
    rw [List.append_nil] at hs
    exact absurd (hs ▸ List.mem_append_right body List.mem_cons_self) hnone

/-- A string that is not closed takes all that is left of the source. -/
theorem longest_unterminated {body : List Char} (hbody : '"' ∉ body) :
    Longest d .error "unterminated string" ('"' :: body) [] := by
  refine ⟨.unterminated hbody, ?_⟩
  intro kind' lexeme' text' after' hsame h
  rw [List.append_nil] at hsame
  obtain ⟨t, rfl, hs⟩ := h.exists_cons hsame
  rcases h.of_quote rfl with ⟨-, -, body', -, rfl⟩ | ⟨rfl, rfl, -, rfl⟩
  · have hmem : '"' ∈ body' ++ ['"'] ++ after' := by simp
    exact absurd (hs ▸ hmem) hbody
  · rw [List.append_nil] at hs
    exact .inr ⟨rfl, rfl, by rw [hs]⟩

/-! ## Symbols and strays -/

/-- A symbol that an equals sign goes on is read together with it. -/
theorem longest_withEqual {a b : Symbol} (ha : Symbol.ofChar? c = some a)
    (hb : a.withEqual? = some b) (t : List Char) :
    Longest d (.symbol b) (String.ofList [c, '=']) [c, '='] t := by
  have htext : b.text.toList = [c, '='] := by
    rw [Symbol.text_of_withEqual? hb, Symbol.text_of_ofChar? ha]
    rfl
  refine ⟨.token (htext ▸ .symbol b), ?_⟩
  intro kind' lexeme' text' after' hsame h
  obtain ⟨t', rfl, hs⟩ := h.exists_cons hsame
  obtain ⟨rfl, b', rfl, ⟨rfl, -⟩ | ⟨rfl, hb'⟩⟩ := h.of_symbol rfl ha
  · exact .inl (Nat.lt_succ_self 1)
  · obtain rfl := Option.some.inj (hb.symm.trans hb')
    exact .inr ⟨rfl, rfl, rfl⟩

/-- A symbol that no equals sign goes on is read alone. -/
theorem longest_single {a : Symbol} (ha : Symbol.ofChar? c = some a)
    (hlone : ∀ b t, a.withEqual? = some b → s ≠ '=' :: t) :
    Longest d (.symbol a) (String.ofList [c]) [c] s := by
  refine ⟨.token (Symbol.text_of_ofChar? ha ▸ .symbol a), ?_⟩
  intro kind' lexeme' text' after' hsame h
  obtain ⟨t', rfl, hs⟩ := h.exists_cons hsame
  obtain ⟨rfl, b', rfl, ⟨rfl, rfl⟩ | ⟨rfl, hb'⟩⟩ := h.of_symbol rfl ha
  · exact .inr ⟨rfl, rfl, rfl⟩
  · exact absurd hs.symm (hlone b' after' hb')

/-- A stray character is read alone, whatever follows. -/
theorem longest_stray (hnone : ∀ k w, ¬ Spelling d k (c :: w)) (hlayout : ¬ IsLayout c) :
    Longest d .error "Unexpected character." [c] s := by
  refine ⟨.unexpected hnone hlayout, ?_⟩
  intro kind' lexeme' text' after' hsame h
  obtain ⟨t, rfl, -⟩ := h.exists_cons hsame
  obtain ⟨rfl, rfl, rfl⟩ := h.of_stray rfl hnone
  exact .inr ⟨rfl, rfl, rfl⟩

/-! ## All branches -/

/-- A token without an error shows the text that it was made of. -/
theorem token_of_ok {l : Lexeme} {k : Kind} (h : l.verdict = .ok k) (p q : Place) :
    (l.token p q).kind = k ∧ (l.token p q).lexeme = String.ofList l.text := by
  simp only [token, h, and_self]

/-- **A string is the longest reading** at a quote, closed or not. -/
theorem longest_quoted (p q : Place) :
    Longest d ((quoted '"' s).token p q).kind ((quoted '"' s).token p q).lexeme
      (quoted '"' s).text (quoted '"' s).rest := by
  have hbody : '"' ∉ s.takeWhile (· != '"') := fun hmem =>
    absurd (forall_mem_takeWhile s _ hmem) (by decide)
  rw [quoted]
  split
  · next a t ha =>
    have hhead := List.head?_dropWhile_not (· != '"') s
    rw [ha] at hhead
    obtain rfl : a = '"' := by simpa using hhead
    exact longest_string d hbody
  · exact longest_unterminated d hbody

/-- **A symbol is the longest reading** at its first character. -/
theorem longest_symbol {a : Symbol} (ha : Symbol.ofChar? c = some a) (p q : Place) :
    Longest d ((symbol a c s).token p q).kind ((symbol a c s).token p q).lexeme
      (symbol a c s).text (symbol a c s).rest := by
  rw [symbol.eq_def]
  split
  · next b t hb => exact longest_withEqual d ha hb t
  · next hlone => exact longest_single d _ ha hlone

/-- The verdicts that are given: a class of tokens, a missing quote, or an error
about the first character alone. -/
theorem verdict_ofHead (c : Char) :
    (∃ k, (ofHead d c s).verdict = .ok k ∧ k ≠ .error ∧ k ≠ .eof) ∨
    (ofHead d c s).verdict = .error .unterminatedString ∨
    ((ofHead d c s).verdict = .error .unexpectedCharacter ∧ (ofHead d c s).text = [c]) := by
  by_cases hstart : ∃ k w, Spelling d k (c :: w)
  · rcases exists_spelling_iff.mp hstart with h | h | rfl | ⟨a, ha⟩
    · have hword : IsWord (word d c s).text :=
        ⟨h, fun x hx => isWordChar_iff.mp (forall_mem_takeWhile s x hx)⟩
      rw [ofHead_of_isNameStart d s h]
      exact .inl ⟨_, rfl, (spelling_of_isWord d hword).kind_ne⟩
    · rw [ofHead_of_isDecimal d s h, verdict_numeral]
      exact .inl ⟨_, rfl, (Spelling.number (d := d) (isNumeral_numeral s h)).kind_ne⟩
    · rw [ofHead_quote, quoted]
      split
      · exact .inl ⟨_, rfl, (spelling_empty d).kind_ne⟩
      · exact .inr (.inl rfl)
    · have hsymbol : ∀ b, Kind.symbol b ≠ .error ∧ Kind.symbol b ≠ .eof := fun b =>
        (Spelling.symbol (d := d) b).kind_ne
      rw [ofHead_of_symbol d s ha, symbol.eq_def]
      split
      · exact .inl ⟨_, rfl, hsymbol _⟩
      · exact .inl ⟨_, rfl, hsymbol _⟩
  · rw [ofHead_of_stray d s fun k w hw => hstart ⟨k, w, hw⟩]
    exact .inr (.inr ⟨rfl, rfl⟩)

/-- **The lexeme that is cut off is the longest reading** of what it is cut off
from, wherever its token is said to lie, unless that begins with layout. -/
theorem longest_ofHead (hc : ¬ IsLayout c) (p q : Place) :
    Longest d ((ofHead d c s).token p q).kind ((ofHead d c s).token p q).lexeme
      (ofHead d c s).text (ofHead d c s).rest := by
  by_cases hstart : ∃ k w, Spelling d k (c :: w)
  · rcases exists_spelling_iff.mp hstart with h | h | rfl | ⟨a, ha⟩
    · rw [ofHead_of_isNameStart d s h]
      exact longest_word d s h
    · rw [ofHead_of_isDecimal d s h, (token_of_ok (verdict_numeral s c) p q).1,
        (token_of_ok (verdict_numeral s c) p q).2]
      exact longest_numeral d s h
    · rw [ofHead_quote]
      exact longest_quoted d s p q
    · rw [ofHead_of_symbol d s ha]
      exact longest_symbol d s ha p q
  · have hnone : ∀ k w, ¬ Spelling d k (c :: w) := fun k w hw => hstart ⟨k, w, hw⟩
    rw [ofHead_of_stray d s hnone]
    exact longest_stray d s hnone hc

end Lexeme

end ScriptFront
