/-
The grammar of JSON texts, and that the reader follows it.

The grammar is that of the JSON standard, over characters: blanks may stand around each
value, name and mark, a string is made of characters and escapes, a numeral has no
zero in front. `Json.Derives` holds of a phrase and the text that it is derived
from; the phrase of a whole text is a value with blanks around it.

The reader takes the text apart into atoms first and puts these together with a
stack. Here the two steps are looked at as one: `State.Passes` says from which
state to which a stretch of text leads. One atom is one step (`passes_atom`), blanks
are none (`passes_blanks`), and stretches are put together by `Passes.append`. The
main lemma, by induction on the derivation, is that each phrase is read whatever
containers are still open around it (`Derives.reads`). So a text of the grammar is
read as the value it is derived for (`Derives.read?_eq`), and it is derived for no
other (`Derives.unique`).
-/
import Mathlib.Data.List.Basic
import ScriptFront.Json.Reader
import ScriptFront.Proofs.Decimal

set_option autoImplicit false

namespace ScriptFront.Json

/-! ## The grammar -/

/-- A blank: `%x20 / %x09 / %x0A / %x0D`. -/
def IsBlank (c : Char) : Prop := c = ' ' ∨ c = '\t' ∨ c = '\n' ∨ c = '\r'

instance (c : Char) : Decidable (IsBlank c) :=
  inferInstanceAs (Decidable (c = ' ' ∨ c = '\t' ∨ c = '\n' ∨ c = '\r'))

/-- Nothing but blanks. -/
def Blanks (s : List Char) : Prop := ∀ c ∈ s, IsBlank c

/-- One or more digits. -/
def Digits (s : List Char) : Prop := s ≠ [] ∧ ∀ c ∈ s, c.isDigit = true

/-- The letters of short escapes with the characters they stand for. -/
def shortEscapes : List (Char × Char) :=
  [('"', '"'), ('\\', '\\'), ('/', '/'), ('b', '\x08'), ('f', '\x0c'), ('n', '\n'), ('r', '\r'),
    ('t', '\t')]

/-- How an item of a string may be written. -/
inductive Item : Piece → List Char → Prop where
  | plain {c : Char} : ' ' ≤ c → c ≠ '"' → c ≠ '\\' → Item (.char c) [c]
  | short {e c : Char} : (e, c) ∈ shortEscapes → Item (.char c) ['\\', e]
  | unit {a b c d : Char} {n : Nat} : unitOf? a b c d = some n →
      Item (.unit n) ['\\', 'u', a, b, c, d]

/-- How the items of a string may be written. -/
inductive Items : List Piece → List Char → Prop where
  | nil : Items [] []
  | cons {p : Piece} {ps : List Piece} {s t : List Char} :
      Item p s → Items ps t → Items (p :: ps) (s ++ t)

/-- Digits without a zero in front of others. -/
def IsWhole (s : List Char) : Prop := Digits s ∧ (s.head? = some '0' → s = ['0'])

/-- Nothing, or a dot and digits. -/
def IsFraction (s : List Char) : Prop := s = [] ∨ ∃ t, s = '.' :: t ∧ Digits t

/-- Nothing, or a letter, perhaps a sign, and digits. -/
def IsExponent (s : List Char) : Prop :=
  s = [] ∨ ∃ e sign t, s = e :: (sign ++ t) ∧ (e = 'e' ∨ e = 'E') ∧
    (sign = [] ∨ sign = ['+'] ∨ sign = ['-']) ∧ Digits t

/-- How a numeral may be written. -/
inductive NumeralText : Numeral → List Char → Prop where
  | mk {whole fraction exponent : List Char} (negative : Bool) :
      IsWhole whole → IsFraction fraction → IsExponent exponent →
        NumeralText { negative, whole := Nat.ofDigitChars 10 whole 0, fraction, exponent }
          ((if negative then ['-'] else []) ++ (whole ++ (fraction ++ exponent)))

/-- What a stretch of text may be. -/
inductive Phrase where
  | value (j : Json)
  -- A value with blanks around it.
  | element (j : Json)
  | items (js : List Json)
  | member (m : List Piece × Json)
  | members (ms : List (List Piece × Json))

/-- The text is derived for the phrase. -/
inductive Derives : Phrase → List Char → Prop where
  | wordNull : Derives (.value .null) ['n', 'u', 'l', 'l']
  | wordTrue : Derives (.value (.bool true)) ['t', 'r', 'u', 'e']
  | wordFalse : Derives (.value (.bool false)) ['f', 'a', 'l', 's', 'e']
  | number {n : Numeral} {s : List Char} : NumeralText n s → Derives (.value (.number n)) s
  | string {ps : List Piece} {s : List Char} :
      Items ps s → Derives (.value (.string ps)) ('"' :: (s ++ ['"']))
  | emptyArray {w : List Char} : Blanks w → Derives (.value (.array [])) ('[' :: (w ++ [']']))
  | array {js : List Json} {s : List Char} :
      Derives (.items js) s → Derives (.value (.array js)) ('[' :: (s ++ [']']))
  | emptyObject {w : List Char} :
      Blanks w → Derives (.value (.object [])) ('\x7b' :: (w ++ ['\x7d']))
  | object {ms : List (List Piece × Json)} {s : List Char} :
      Derives (.members ms) s → Derives (.value (.object ms)) ('\x7b' :: (s ++ ['\x7d']))
  | element {j : Json} {w s w' : List Char} :
      Blanks w → Derives (.value j) s → Blanks w' → Derives (.element j) (w ++ (s ++ w'))
  | item {j : Json} {s : List Char} : Derives (.element j) s → Derives (.items [j]) s
  | itemThen {j : Json} {js : List Json} {s t : List Char} :
      Derives (.element j) s → Derives (.items js) t → Derives (.items (j :: js)) (s ++ ',' :: t)
  | member {name : List Piece} {j : Json} {w k w' s : List Char} :
      Blanks w → Items name k → Blanks w' → Derives (.element j) s →
        Derives (.member (name, j)) (w ++ ('"' :: (k ++ ['"']) ++ (w' ++ ':' :: s)))
  | lastMember {m : List Piece × Json} {s : List Char} :
      Derives (.member m) s → Derives (.members [m]) s
  | memberThen {m : List Piece × Json} {ms : List (List Piece × Json)} {s t : List Char} :
      Derives (.member m) s → Derives (.members ms) t →
        Derives (.members (m :: ms)) (s ++ ',' :: t)

/-- The reader's test for blanks holds of those of the grammar. -/
theorem isSpace_iff {c : Char} : isSpace c = true ↔ IsBlank c := by
  simp only [isSpace, IsBlank, Bool.or_eq_true, beq_iff_eq, or_assoc]

/-! ## Strings -/

/-- A short escape is found, and is none of those with digits. -/
theorem shortEscape?_of_mem {e c : Char} (h : (e, c) ∈ shortEscapes) :
    shortEscape? e = some c ∧ e ≠ 'u' := by
  have hall : ∀ p ∈ shortEscapes, shortEscape? p.1 = some p.2 ∧ p.1 ≠ 'u' := by decide
  exact hall _ h

/-- An item at the head of the rest of a string is read as that item. -/
theorem readString_item {p : Piece} {s : List Char} (h : Item p s) (t : List Char) :
    readString (s ++ t) = (readString t).map fun (ps, rest) => (p :: ps, rest) := by
  cases h with
  | @plain c hvisible hquote hslash =>
    have hplain : (decide (c < ' ') || c == '\\') = false := by
      rw [Bool.or_eq_false_iff, decide_eq_false_iff_not, beq_eq_false_iff_ne]
      exact ⟨Char.not_lt.mpr hvisible, hslash⟩
    rw [List.singleton_append, readString]
    · rw [hplain]
      cases readString t <;> rfl
    · exact hquote
    · rintro _ _ _ _ _ rfl
      exact absurd rfl hslash
    · rintro _ _ rfl
      exact absurd rfl hslash
  | @short e c hmem =>
    obtain ⟨hchar, hunit⟩ := shortEscape?_of_mem hmem
    rw [List.cons_append, List.singleton_append, readString]
    · rw [hchar]
      cases readString t <;> rfl
    · rintro _ _ _ _ _ rfl
      exact absurd rfl hunit
  | unit hn =>
    simp only [List.cons_append, List.nil_append, readString, hn]
    cases readString t <;> rfl

/-- The items of a string are read up to its closing quote. -/
theorem readString_items {ps : List Piece} {s : List Char} (h : Items ps s) (t : List Char) :
    readString (s ++ '"' :: t) = some (ps, t) := by
  induction h with
  | nil => rfl
  | cons hitem _ ih => rw [List.append_assoc, readString_item hitem, ih, Option.map_some]

/-- A string is read up to its closing quote, whatever comes after it. -/
theorem readAtom_string {ps : List Piece} {s : List Char} (h : Items ps s) (t : List Char) :
    readAtom ('"' :: (s ++ ['"'] ++ t)) = some (.string ps, t) := by
  rw [List.append_assoc, readAtom, List.singleton_append, readString_items h]
  rfl

/-! ## Numerals -/

/-- A character that may come after a value. -/
def IsAfter (c : Char) : Prop := IsBlank c ∨ c = ',' ∨ c = ']' ∨ c = '\x7d'

instance (c : Char) : Decidable (IsAfter c) :=
  inferInstanceAs (Decidable (IsBlank c ∨ c = ',' ∨ c = ']' ∨ c = '\x7d'))

/-- The text is at its end, or goes on as it may after a value. -/
def Closed (t : List Char) : Prop := ∀ c ∈ t.head?, IsAfter c

/-- What may come after a value does not go on with a numeral. -/
theorem IsAfter.not_numeral {c : Char} (h : IsAfter c) :
    c.isDigit = false ∧ c ≠ '.' ∧ c ≠ 'e' ∧ c ≠ 'E' := by
  rcases h with (rfl | rfl | rfl | rfl) | rfl | rfl | rfl <;> decide

theorem closed_nil : Closed [] := by
  rintro _ ⟨⟩

theorem closed_cons {c : Char} (h : IsAfter c) (t : List Char) : Closed (c :: t) := by
  rintro _ ⟨⟩
  exact h

/-- Blanks before a text that may come after a numeral may come there, too. -/
theorem Closed.blanks_append {w t : List Char} (hw : Blanks w) (ht : Closed t) :
    Closed (w ++ t) := by
  cases w with
  | nil => exact ht
  | cons c w => exact closed_cons (.inl (hw c List.mem_cons_self)) _

/-- A fraction is read up to where no digit and no point goes on. -/
theorem readFraction_append {s u : List Char} (h : IsFraction s)
    (hu : ∀ c ∈ u.head?, c.isDigit = false ∧ c ≠ '.') :
    readFraction (s ++ u) = some (s, u) := by
  rcases h with rfl | ⟨ds, rfl, hne, hds⟩
  · rw [List.nil_append, readFraction]
    rintro t rfl
    exact (hu '.' rfl).2 rfl
  · obtain ⟨htake, hdrop⟩ := span_digits hds fun c hc => (hu c hc).1
    rw [List.cons_append, readFraction, htake, hdrop]
    exact if_neg fun hempty => hne (List.isEmpty_iff.mp hempty)

/-- An exponent is read up to where no digit and no mark of an exponent goes on. -/
theorem readExponent_append {s u : List Char} (h : IsExponent s)
    (hu : ∀ c ∈ u.head?, c.isDigit = false ∧ c ≠ 'e' ∧ c ≠ 'E') :
    readExponent (s ++ u) = some (s, u) := by
  rcases h with rfl | ⟨e, sign, ds, rfl, he, hsign, hne, hds⟩
  · cases u with
    | nil => rfl
    | cons c u =>
      obtain ⟨-, hsmall, hcapital⟩ := hu c rfl
      have hletter : ¬(c == 'e' || c == 'E') = true := by
        rw [Bool.or_eq_true, beq_iff_eq, beq_iff_eq]
        exact fun h => h.elim hsmall hcapital
      exact if_neg hletter
  · obtain ⟨htake, hdrop⟩ := span_digits hds fun c hc => (hu c hc).1
    have hletter : (e == 'e' || e == 'E') = true := by
      rwa [Bool.or_eq_true, beq_iff_eq, beq_iff_eq]
    have hsome : ds.isEmpty = false := by rwa [List.isEmpty_eq_false_iff]
    rcases hsign with rfl | rfl | rfl
    · -- Without a sign, the next character is a digit.
      obtain ⟨d, ds, rfl⟩ := List.exists_cons_of_ne_nil hne
      have hd := hds d List.mem_cons_self
      rw [List.nil_append, List.cons_append, List.cons_append, readExponent]
      · rw [if_pos hletter, ← List.cons_append, htake, hdrop]
        rfl
      · rintro t ht
        obtain rfl := (List.cons.inj ht).1
        exact absurd hd (by decide)
      · rintro t ht
        obtain rfl := (List.cons.inj ht).1
        exact absurd hd (by decide)
    · simp only [List.cons_append, List.nil_append, readExponent, if_pos hletter, htake, hdrop,
        hsome, Bool.false_eq_true, if_false]
    · simp only [List.cons_append, List.nil_append, readExponent, if_pos hletter, htake, hdrop,
        hsome, Bool.false_eq_true, if_false]

/-- An exponent does not go on with the digits before it, and neither does what comes after. -/
theorem IsExponent.head_not_digit {s : List Char} (h : IsExponent s) {u : List Char}
    (hu : ∀ c ∈ u.head?, c.isDigit = false ∧ c ≠ '.') :
    ∀ c ∈ (s ++ u).head?, c.isDigit = false ∧ c ≠ '.' := by
  rcases h with rfl | ⟨e, sign, ds, rfl, he, -⟩
  · exact hu
  · rintro _ ⟨⟩
    rcases he with rfl | rfl <;> decide

/-- A fraction does not go on with the digits before it, and neither does what comes after. -/
theorem IsFraction.head_not_digit {s : List Char} (h : IsFraction s) {u : List Char}
    (hu : ∀ c ∈ u.head?, c.isDigit = false ∧ c ≠ '.') :
    ∀ c ∈ (s ++ u).head?, c.isDigit = false := by
  rcases h with rfl | ⟨ds, rfl, -⟩
  · exact fun c hc => (hu c hc).1
  · rintro _ ⟨⟩
    rfl

/-- **A numeral is read in its parts**, in front of any text that may come after it. -/
theorem readNumeral_append {whole fraction exponent : List Char} (negative : Bool)
    (hwhole : IsWhole whole) (hfraction : IsFraction fraction) (hexponent : IsExponent exponent)
    {t : List Char} (ht : Closed t) :
    readNumeral negative (whole ++ (fraction ++ (exponent ++ t))) =
      some ({ negative, whole := Nat.ofDigitChars 10 whole 0, fraction, exponent }, t) := by
  obtain ⟨⟨hne, hds⟩, hzero⟩ := hwhole
  have hafter : ∀ c ∈ t.head?, c.isDigit = false ∧ c ≠ '.' ∧ c ≠ 'e' ∧ c ≠ 'E' :=
    fun c hc => (ht c hc).not_numeral
  have hexp := hexponent.head_not_digit fun c hc => ⟨(hafter c hc).1, (hafter c hc).2.1⟩
  obtain ⟨htake, hdrop⟩ := span_digits hds (hfraction.head_not_digit hexp)
  have hread := readFraction_append hfraction hexp
  have hread' := readExponent_append hexponent fun c hc => ⟨(hafter c hc).1, (hafter c hc).2.2⟩
  have hfront : ¬(whole.isEmpty || (whole.head? == some '0' && whole.length != 1)) = true := by
    simp only [Bool.or_eq_true, Bool.and_eq_true, List.isEmpty_iff, beq_iff_eq, bne_iff_ne]
    rintro (hnil | ⟨hhead, hlong⟩)
    · exact hne hnil
    · exact hlong (by rw [hzero hhead]; rfl)
  simp only [readNumeral, htake, hdrop, hread, hread', if_neg hfront, Option.bind_eq_bind,
    Option.bind_some]
  rfl

/-- What begins with a digit is read as a numeral. -/
theorem readAtom_digit {d : Char} (hd : d.isDigit = true) (s : List Char) :
    readAtom (d :: s) = (readNumeral false (d :: s)).map fun (n, rest) => (.number n, rest) := by
  rw [readAtom]
  · cases readNumeral false (d :: s) <;> rfl
  all_goals
    rintro _ ⟨⟩
    exact absurd hd (by decide)

/-- A numeral at the head of a text is one atom. -/
theorem readAtom_numeral {n : Numeral} {s t : List Char} (h : NumeralText n s) (ht : Closed t) :
    readAtom (s ++ t) = some (.number n, t) := by
  obtain ⟨negative, hwhole, hfraction, hexponent⟩ := h
  have hread := readNumeral_append negative hwhole hfraction hexponent ht
  cases negative with
  | true =>
    rw [if_pos rfl, List.singleton_append, List.cons_append, List.append_assoc, List.append_assoc,
      readAtom, hread]
    rfl
  | false =>
    obtain ⟨d, ds, rfl⟩ := List.exists_cons_of_ne_nil hwhole.1.1
    have hd := hwhole.1.2 d List.mem_cons_self
    rw [if_neg Bool.false_ne_true, List.nil_append, List.append_assoc, List.append_assoc,
      List.cons_append, readAtom_digit hd, ← List.cons_append, hread]
    rfl

/-- A numeral is not empty and does not begin with a blank. -/
theorem NumeralText.exists_cons {n : Numeral} {s : List Char} (h : NumeralText n s) :
    ∃ c s', s = c :: s' ∧ isSpace c = false := by
  obtain ⟨negative, ⟨⟨hne, hds⟩, -⟩, -, -⟩ := h
  cases negative with
  | true => exact ⟨_, _, rfl, rfl⟩
  | false =>
    obtain ⟨d, ds, rfl⟩ := List.exists_cons_of_ne_nil hne
    refine ⟨d, _, rfl, Bool.eq_false_iff.mpr fun hspace => ?_⟩
    have hd := hds d List.mem_cons_self
    rcases isSpace_iff.mp hspace with rfl | rfl | rfl | rfl
    all_goals exact absurd hd (by decide)

/-! ## Reading on from a state -/

/-- Reading `s`, where `t` comes after it, leads from one state to another. It
takes no more atoms than `s` has characters. -/
def State.Passes (st : State) (s t : List Char) (st' : State) : Prop :=
  ∃ n ≤ s.length, ∀ fuel,
    (readAtoms (n + fuel) (s ++ t)).bind st.run = (readAtoms fuel t).bind st'.run

namespace State

/-- Two texts that are passed one after the other are passed as one. -/
theorem Passes.append {st st' st'' : State} {s t u : List Char} (h : st.Passes s (t ++ u) st')
    (h' : st'.Passes t u st'') : st.Passes (s ++ t) u st'' := by
  obtain ⟨n, hn, hs⟩ := h
  obtain ⟨m, hm, ht⟩ := h'
  refine ⟨n + m, by rw [List.length_append]; omega, fun fuel => ?_⟩
  rw [List.append_assoc, Nat.add_assoc, hs, ht]

/-- Blanks before an atom make no difference. -/
theorem readAtoms_blanks {w : List Char} (h : Blanks w) (fuel : Nat) (t : List Char) :
    readAtoms fuel (w ++ t) = readAtoms fuel t := by
  have hdrop : (w ++ t).dropWhile isSpace = t.dropWhile isSpace :=
    List.dropWhile_append_of_pos fun c hc => isSpace_iff.mpr (h c hc)
  rw [readAtoms, hdrop, readAtoms]

/-- Blanks change nothing. -/
theorem passes_blanks {w : List Char} (h : Blanks w) (st : State) (t : List Char) :
    st.Passes w t st :=
  ⟨0, Nat.zero_le _, fun fuel => by rw [readAtoms_blanks h, Nat.zero_add]⟩

/-- An atom at the head of a text is one step. -/
theorem passes_atom {st st' : State} {a : Atom} {c : Char} {s t : List Char}
    (hc : isSpace c = false) (hread : readAtom (c :: (s ++ t)) = some (a, t))
    (hstep : st.step a = some st') : st.Passes (c :: s) t st' := by
  refine ⟨1, Nat.le_add_left _ _, fun fuel => ?_⟩
  have hdrop : (c :: (s ++ t)).dropWhile isSpace = c :: (s ++ t) :=
    List.dropWhile_cons_of_neg (Bool.eq_false_iff.mp hc)
  have hatoms : readAtoms (1 + fuel) (c :: (s ++ t)) = (readAtoms fuel t).map (a :: ·) := by
    rw [Nat.add_comm, readAtoms, hdrop]
    simp only [hread, Option.bind_eq_bind, Option.bind_some]
    cases readAtoms fuel t <;> rfl
  rw [List.cons_append, hatoms]
  cases readAtoms fuel t with
  | none => rfl
  | some as =>
    have hrun : st.run (a :: as) = st'.run as := by
      rw [run, hstep]
      rfl
    exact hrun

/-- An atom of one character, and what comes after it. -/
theorem Passes.mark {st st' st'' : State} {a : Atom} {c : Char} {s t : List Char}
    (h : st'.Passes s t st'') (hc : isSpace c = false)
    (hread : ∀ u, readAtom (c :: u) = some (a, u)) (hstep : st.step a = some st') :
    st.Passes (c :: s) t st'' := by
  have hfirst : st.Passes [c] (s ++ t) st' := passes_atom hc (hread _) hstep
  exact hfirst.append h

/-! ## Each phrase is read -/

/-- What reading a phrase comes to, whatever containers are open around it. -/
def Reads : Phrase → List Char → Prop
  | .value j, s | .element j, s => ∀ closable stack t, Closed t →
      (value closable stack).Passes s t (deliver j stack)
  | .items js, s => ∀ closable before stack t, Closed t →
      (value closable (.array before :: stack)).Passes s t (afterItem (js.reverse ++ before) stack)
  | .member m, s => ∀ closable before stack t, Closed t →
      (name closable before stack).Passes s t (afterMember (m :: before) stack)
  | .members ms, s => ∀ closable before stack t, Closed t →
      (name closable before stack).Passes s t (afterMember (ms.reverse ++ before) stack)

/-! A container is closed by its own bracket, so any text may come after it. -/

/-- Brackets with nothing between them but blanks are read as the empty sequence. -/
theorem passes_emptyArray {w : List Char} (hw : Blanks w) (closable : Bool) (stack : List Frame)
    (t : List Char) :
    (value closable stack).Passes ('[' :: (w ++ [']'])) t (deliver (.array []) stack) := by
  have hclose : (value true (.array [] :: stack)).Passes [']'] t (deliver (.array []) stack) :=
    passes_atom rfl rfl rfl
  exact ((passes_blanks hw _ _).append hclose).mark rfl (fun _ => rfl) rfl

/-- Items between brackets are read as a sequence of them. -/
theorem Reads.array {js : List Json} {s : List Char} (h : Reads (.items js) s) (closable : Bool)
    (stack : List Frame) (t : List Char) :
    (State.value closable stack).Passes ('[' :: (s ++ [']'])) t (deliver (.array js) stack) := by
  -- The items are read into an empty frame, last one first, and reversed at its end.
  have hitems := h true [] stack (']' :: t) (closed_cons (by decide) t)
  have hclose : (afterItem (js.reverse ++ []) stack).Passes [']'] t
      (deliver (.array js) stack) := by
    refine passes_atom rfl rfl ?_
    rw [step, List.append_nil, List.reverse_reverse]
  exact (hitems.append hclose).mark rfl (fun _ => rfl) rfl

/-- Braces with nothing between them but blanks are read as the empty object. -/
theorem passes_emptyObject {w : List Char} (hw : Blanks w) (closable : Bool) (stack : List Frame)
    (t : List Char) :
    (value closable stack).Passes ('\x7b' :: (w ++ ['\x7d'])) t (deliver (.object []) stack) := by
  have hclose : (name true [] stack).Passes ['\x7d'] t (deliver (.object []) stack) :=
    passes_atom rfl rfl rfl
  exact ((passes_blanks hw _ _).append hclose).mark rfl (fun _ => rfl) rfl

/-- Members between braces are read as an object of them. -/
theorem Reads.object {ms : List (List Piece × Json)} {s : List Char} (h : Reads (.members ms) s)
    (closable : Bool) (stack : List Frame) (t : List Char) :
    (State.value closable stack).Passes ('\x7b' :: (s ++ ['\x7d'])) t
      (deliver (.object ms) stack) := by
  have hmembers := h true [] stack ('\x7d' :: t) (closed_cons (by decide) t)
  have hclose : (afterMember (ms.reverse ++ []) stack).Passes ['\x7d'] t
      (deliver (.object ms) stack) := by
    refine passes_atom rfl rfl ?_
    rw [step, List.append_nil, List.reverse_reverse]
  exact (hmembers.append hclose).mark rfl (fun _ => rfl) rfl

end State

open State in
/-- Every phrase of the grammar is read, whatever containers are open around it. The
induction is on the derivation. -/
theorem Derives.reads {p : Phrase} {s : List Char} (h : Derives p s) : State.Reads p s := by
  induction h with
  | wordNull | wordTrue | wordFalse => exact fun _ _ _ _ => passes_atom rfl rfl rfl
  | number hn =>
    intro _ _ t ht
    obtain ⟨c, s', rfl, hc⟩ := hn.exists_cons
    exact passes_atom hc (readAtom_numeral hn ht) rfl
  | string hps =>
    exact fun _ _ t _ => passes_atom rfl (readAtom_string hps t) rfl
  | emptyArray hw => exact fun closable stack t _ => passes_emptyArray hw closable stack t
  | array _ ih => exact fun closable stack t _ => State.Reads.array ih closable stack t
  | emptyObject hw => exact fun closable stack t _ => passes_emptyObject hw closable stack t
  | object _ ih => exact fun closable stack t _ => State.Reads.object ih closable stack t
  | element hw _ hw' ih =>
    intro closable stack t ht
    -- A numeral ends where the blanks begin, or where the text after them does.
    have hvalue := ih closable stack _ (ht.blanks_append hw')
    exact (passes_blanks hw _ _).append (hvalue.append (passes_blanks hw' _ _))
  | item _ ih =>
    exact fun closable before stack t ht => ih closable (.array before :: stack) t ht
  | @itemThen j js s s' _ _ ih ih' =>
    intro closable before stack t ht
    have hitem := ih closable (.array before :: stack) (',' :: s' ++ t) (closed_cons (by decide) _)
    have hitems := ih' false (j :: before) stack t ht
    rw [List.reverse_cons, List.append_assoc]
    exact hitem.append (hitems.mark rfl (fun _ => rfl) rfl)
  | @member key j w k w' s hw hk hw' _ ih =>
    intro closable before stack t ht
    have hvalue := ih false (.object before key :: stack) t ht
    have hcolon : (colon before key stack).Passes (w' ++ ':' :: s) t
        (afterMember ((key, j) :: before) stack) :=
      (passes_blanks hw' _ _).append (hvalue.mark rfl (fun _ => rfl) rfl)
    have hkey : (name closable before stack).Passes ('"' :: (k ++ ['"'])) (w' ++ ':' :: s ++ t)
        (colon before key stack) := passes_atom rfl (readAtom_string hk _) rfl
    exact (passes_blanks hw _ _).append (hkey.append hcolon)
  | lastMember _ ih =>
    exact fun closable before stack t ht => ih closable before stack t ht
  | @memberThen m ms s s' _ _ ih ih' =>
    intro closable before stack t ht
    have hmember := ih closable before stack (',' :: s' ++ t) (closed_cons (by decide) _)
    have hmembers := ih' false (m :: before) stack t ht
    rw [List.reverse_cons, List.append_assoc]
    exact hmember.append (hmembers.mark rfl (fun _ => rfl) rfl)

/-- A text of the grammar is read as the value it is derived for. -/
theorem Derives.read?_eq {j : Json} {s : List Char} (h : Derives (.element j) s) :
    read? s = some j := by
  obtain ⟨n, hn, hrun⟩ := h.reads false [] [] closed_nil
  obtain ⟨fuel, hfuel⟩ := Nat.exists_eq_add_of_le hn
  have hend : readAtoms fuel [] = some [] := by
    rw [readAtoms]
    rfl
  have hall := hrun fuel
  rw [List.append_nil, ← hfuel, hend] at hall
  exact hall

open State in
/-- After a value that is no numeral the reader is at its end, whatever text comes then. -/
theorem Derives.passes_of_not_number {j : Json} {s : List Char} (h : Derives (.element j) s)
    (hj : ∀ n, j ≠ .number n) (t : List Char) : (value false []).Passes s t (complete j) := by
  cases h with
  | @element _ w s w' hw hs hw' =>
    have hvalue : (value false []).Passes s (w' ++ t) (complete j) := by
      cases hs with
      | wordNull | wordTrue | wordFalse => exact passes_atom rfl rfl rfl
      | @number n => exact absurd rfl (hj n)
      | string hps => exact passes_atom rfl (readAtom_string hps _) rfl
      | emptyArray hb => exact passes_emptyArray hb false [] _
      | array hs => exact State.Reads.array hs.reads false [] _
      | emptyObject hb => exact passes_emptyObject hb false [] _
      | object hs => exact State.Reads.object hs.reads false [] _
    exact (passes_blanks hw _ _).append (hvalue.append (passes_blanks hw' _ _))

/-- No text is derived for two values. -/
theorem Derives.unique {j j' : Json} {s : List Char} (h : Derives (.element j) s)
    (h' : Derives (.element j') s) : j = j' :=
  Option.some.inj (h.read?_eq.symm.trans h'.read?_eq)

end ScriptFront.Json
