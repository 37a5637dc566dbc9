/-
Classes of tokens, as the texts that belong to them.

A class is stated here by its texts alone: which characters, in which order.
Nothing is said about how such a text is found. `Token.Spelling` holds of a
class and a text that is a token of it, and `Token.Reading` adds the two ways
in which the head of a text can fail to be a token. The longest of all readings
of a text is `Token.Longest`.

What carries every later argument about these classes is that the first
character decides: no two classes begin with the same one, except that the two
readings that begin with a quote differ in what follows. So a token that begins
with `c` is of the class that `c` chooses (`Spelling.head`), and a character that
chooses none begins no token (`exists_spelling_iff`).
-/
import ScriptFront.Lexeme
import ScriptFront.Proofs.ReservedWords

set_option autoImplicit false

namespace ScriptFront

namespace Token

/-! ## Characters -/

/-- `[A-Za-z_]`: what a name begins with. -/
def IsNameStart (c : Char) : Prop := ('A' ≤ c ∧ c ≤ 'Z') ∨ ('a' ≤ c ∧ c ≤ 'z') ∨ c = '_'

/-- `[0-9]`. -/
def IsDecimal (c : Char) : Prop := '0' ≤ c ∧ c ≤ '9'

/-- `[A-Za-z0-9_]`: what a name goes on with. -/
def IsNamePart (c : Char) : Prop := IsNameStart c ∨ IsDecimal c

/-- Space, tab, carriage return or line feed. -/
def IsLayout (c : Char) : Prop := c = ' ' ∨ c = '\t' ∨ c = '\r' ∨ c = '\n'

/-- The scanner's test for letters holds of those that begin names. -/
theorem isLetter_iff {c : Char} : isLetter c = true ↔ IsNameStart c := by
  have hupper : c.isUpper = true ↔ 'A' ≤ c ∧ c ≤ 'Z' := decide_eq_true_iff
  have hlower : c.isLower = true ↔ 'a' ≤ c ∧ c ≤ 'z' := by
    show (decide ('a'.val ≤ c.val) && decide (c.val ≤ 'z'.val)) = true ↔
      'a'.val ≤ c.val ∧ c.val ≤ 'z'.val
    rw [Bool.and_eq_true, decide_eq_true_eq, decide_eq_true_eq]
  show (c.isUpper || c.isLower || c == '_') = true ↔ _
  rw [Bool.or_eq_true, Bool.or_eq_true, hupper, hlower, beq_iff_eq, or_assoc]
  rfl

/-- The scanner's test for digits holds of the decimal ones. -/
theorem isDigit_iff {c : Char} : c.isDigit = true ↔ IsDecimal c := by
  simp only [Char.isDigit, IsDecimal, Char.le_def, Bool.and_eq_true, decide_eq_true_eq, ge_iff_le]

/-- The scanner's test for the rest of a word holds of the parts of names. -/
theorem isWordChar_iff {c : Char} : isWordChar c = true ↔ IsNamePart c := by
  rw [isWordChar, Bool.or_eq_true, isLetter_iff, isDigit_iff, IsNamePart]

/-- The scanner's test for blanks holds of layout. -/
theorem isBlank_iff {c : Char} : isBlank c = true ↔ IsLayout c := by
  simp only [isBlank, IsLayout, Bool.or_eq_true, beq_iff_eq, or_assoc]

/-! ## Texts of a class -/

/-- `[A-Za-z_][A-Za-z0-9_]*`. -/
def IsWord : List Char → Prop
  | [] => False
  | c :: s => IsNameStart c ∧ ∀ x ∈ s, IsNamePart x

/-- A word that is written out is tested character by character. -/
theorem isWord_cons_iff {c : Char} {s : List Char} :
    IsWord (c :: s) ↔ isLetter c = true ∧ s.all isWordChar = true := by
  rw [IsWord, isLetter_iff, List.all_eq_true]
  simp only [isWordChar_iff]

/-- `[0-9]+(\.[0-9]*)?`. -/
inductive IsNumeral : List Char → Prop where
  | whole {w : List Char} : w ≠ [] → (∀ x ∈ w, IsDecimal x) → IsNumeral w
  | fraction {w f : List Char} :
      w ≠ [] → (∀ x ∈ w, IsDecimal x) → (∀ x ∈ f, IsDecimal x) → IsNumeral (w ++ '.' :: f)

/-- The text is a token of the class. -/
inductive Spelling (d : Dialect) : Kind → List Char → Prop where
  | keyword {k : Keyword} {w : List Char} : IsWord w → d.Reserves w k → Spelling d (.keyword k) w
  | identifier {w : List Char} : IsWord w → (∀ k, ¬ d.Reserves w k) → Spelling d .identifier w
  | number {w : List Char} : IsNumeral w → Spelling d .number w
  -- A text between two quotes, without a quote inside.
  | string {body : List Char} : '"' ∉ body → Spelling d .string ('"' :: (body ++ ['"']))
  | symbol (s : Symbol) : Spelling d (.symbol s) s.text.toList

/-- The head of the text `text ++ after` can be read as `text`: as a token of
the class that shows itself, or as an error that shows its message. -/
inductive Reading (d : Dialect) : Kind → String → List Char → List Char → Prop where
  | token {k : Kind} {text after : List Char} :
      Spelling d k text → Reading d k (String.ofList text) text after
  -- A quote with no other quote up to the end.
  | unterminated {body : List Char} :
      '"' ∉ body → Reading d .error "unterminated string" ('"' :: body) []
  -- One character that begins no token and is no layout.
  | unexpected {c : Char} {after : List Char} :
      (∀ k w, ¬ Spelling d k (c :: w)) → ¬ IsLayout c →
        Reading d .error "Unexpected character." [c] after

/-- The head of `text ++ after` is read as `text`, and every other reading of
it is shorter. -/
structure Longest (d : Dialect) (kind : Kind) (lexeme : String) (text after : List Char) :
    Prop where
  reading : Reading d kind lexeme text after
  longest : ∀ kind' lexeme' text' after', text' ++ after' = text ++ after →
    Reading d kind' lexeme' text' after' →
      text'.length < text.length ∨ (kind' = kind ∧ lexeme' = lexeme ∧ text' = text)

instance : DecidablePred IsNameStart := fun c =>
  inferInstanceAs (Decidable (('A' ≤ c ∧ c ≤ 'Z') ∨ ('a' ≤ c ∧ c ≤ 'z') ∨ c = '_'))

instance : DecidablePred IsDecimal := fun c => inferInstanceAs (Decidable ('0' ≤ c ∧ c ≤ '9'))

instance : DecidablePred IsNamePart := fun c =>
  inferInstanceAs (Decidable (IsNameStart c ∨ IsDecimal c))

instance : DecidablePred IsLayout := fun c =>
  inferInstanceAs (Decidable (c = ' ' ∨ c = '\t' ∨ c = '\r' ∨ c = '\n'))

/-! ## First characters -/

/-- What a symbol begins with is the character it is found by, and what follows
it is nothing or the equals sign that makes it longer. -/
theorem Symbol.text_eq_cons {b : Symbol} {c : Char} {t : List Char}
    (h : b.text.toList = c :: t) :
    ∃ a, Symbol.ofChar? c = some a ∧
      ((t = [] ∧ b = a) ∨ (t = ['='] ∧ a.withEqual? = some b)) := by
  -- Each symbol is written out, so both texts are the same list of characters.
  cases b
  all_goals
    obtain ⟨rfl, rfl⟩ := List.cons.inj h
    exact ⟨_, rfl, by decide⟩

/-- What begins a symbol begins neither a name nor a numeral nor a string, and is no layout. -/
theorem Symbol.ofChar?_separate {c : Char} {a : Symbol} (h : Symbol.ofChar? c = some a) :
    ¬ IsNameStart c ∧ ¬ IsDecimal c ∧ c ≠ '"' ∧ ¬ IsLayout c := by
  unfold Symbol.ofChar? at h
  split at h
  all_goals first
    | contradiction
    | decide

/-- No character begins both a name and a numeral. -/
theorem not_isDecimal_of_isNameStart {c : Char} (h : IsNameStart c) : ¬ IsDecimal c := by
  intro hd
  simp only [IsNameStart, IsDecimal, Char.le_def, UInt32.le_iff_toNat_le, Char.ext_iff,
    ← UInt32.toNat_inj, Char.reduceVal, UInt32.reduceToNat] at h hd
  omega

/-- A word is spelled as a keyword or as a name, whichever its class is. -/
theorem spelling_of_isWord (d : Dialect) {w : List Char} (h : IsWord w) :
    Spelling d (d.wordKind w) w := by
  by_cases hk : ∃ k, d.Reserves w k
  · obtain ⟨k, hk⟩ := hk
    rw [Dialect.wordKind_eq_keyword hk]
    exact .keyword h hk
  · have hfree : ∀ k, ¬ d.Reserves w k := fun k hr => hk ⟨k, hr⟩
    rw [Dialect.wordKind_eq_identifier hfree]
    exact .identifier h hfree

theorem spelling_empty (d : Dialect) : Spelling d .string ['"', '"'] :=
  @Spelling.string d [] List.not_mem_nil

/-- A word consists of parts of names. -/
theorem IsWord.forall_mem {w : List Char} (h : IsWord w) : ∀ c ∈ w, IsNamePart c := by
  cases w with
  | nil => exact List.forall_mem_nil _
  | cons c w => exact List.forall_mem_cons.mpr ⟨.inl h.1, h.2⟩

/-- A numeral consists of digits and points. -/
theorem IsNumeral.forall_mem {w : List Char} (h : IsNumeral w) :
    ∀ c ∈ w, IsDecimal c ∨ c = '.' := by
  cases h with
  | whole _ hall => exact fun c hc => .inl (hall c hc)
  | fraction _ hall hfrac =>
    intro c hc
    rcases List.mem_append.mp hc with hc | hc
    · exact .inl (hall c hc)
    · rcases List.mem_cons.mp hc with rfl | hc
      · exact .inr rfl
      · exact .inl (hfrac c hc)

theorem IsWord.isNameStart {c : Char} {t : List Char} (h : IsWord (c :: t)) : IsNameStart c := h.1

/-- A numeral begins with a digit. -/
theorem IsNumeral.isDecimal {w : List Char} {c : Char} {t : List Char} (h : IsNumeral w)
    (hw : w = c :: t) : IsDecimal c := by
  cases h with
  | whole _ hall =>
    subst hw
    exact hall c List.mem_cons_self
  | @fraction u f hne hall _ =>
    cases u with
    | nil => exact absurd rfl hne
    | cons a u =>
      obtain ⟨rfl, -⟩ := List.cons.inj hw
      exact hall a List.mem_cons_self

/-- No class is spelled by an empty text. -/
theorem Spelling.ne_nil {d : Dialect} {k : Kind} {w : List Char} (h : Spelling d k w) :
    w ≠ [] := by
  cases h with
  | keyword hword _ | identifier hword _ =>
    rintro rfl
    exact hword
  | number hnum =>
    cases hnum with
    | whole hne _ => exact hne
    | fraction _ _ _ => exact List.append_ne_nil_of_right_ne_nil _ (List.cons_ne_nil _ _)
  | string _ => exact List.cons_ne_nil _ _
  | symbol b => cases b <;> decide

/-- Neither errors nor the end have a spelling. -/
theorem Spelling.kind_ne {d : Dialect} {k : Kind} {w : List Char} (h : Spelling d k w) :
    k ≠ .error ∧ k ≠ .eof := by
  cases h <;> exact ⟨nofun, nofun⟩

/-- **The first character tells the class apart**: a letter begins words, a digit numerals, a
quote strings and a mark its symbols. -/
theorem Spelling.head {d : Dialect} {k : Kind} {w : List Char} {c : Char} {t : List Char}
    (h : Spelling d k w) (hw : w = c :: t) :
    (IsNameStart c ∧ IsWord w ∧ k = d.wordKind w) ∨
    (IsDecimal c ∧ IsNumeral w ∧ k = .number) ∨
    (c = '"' ∧ k = .string ∧ ∃ body, '"' ∉ body ∧ t = body ++ ['"']) ∨
    (∃ a b, Symbol.ofChar? c = some a ∧ k = .symbol b ∧
      ((t = [] ∧ b = a) ∨ (t = ['='] ∧ a.withEqual? = some b))) := by
  cases h with
  | keyword hword hres =>
    subst hw
    exact .inl ⟨hword.isNameStart, hword, (Dialect.wordKind_eq_keyword hres).symm⟩
  | identifier hword hfree =>
    subst hw
    exact .inl ⟨hword.isNameStart, hword, (Dialect.wordKind_eq_identifier hfree).symm⟩
  | number hnum => exact .inr (.inl ⟨hnum.isDecimal hw, hnum, rfl⟩)
  | @string body hbody =>
    obtain ⟨rfl, rfl⟩ := List.cons.inj hw
    exact .inr (.inr (.inl ⟨rfl, rfl, body, hbody, rfl⟩))
  | symbol b =>
    obtain ⟨a, ha, hb⟩ := Symbol.text_eq_cons hw
    exact .inr (.inr (.inr ⟨a, b, ha, rfl, hb⟩))

/-- Spellings begin with letters, digits, quotes and the marks of symbols, and with nothing
else. -/
theorem exists_spelling_iff {d : Dialect} {c : Char} :
    (∃ k w, Spelling d k (c :: w)) ↔
      IsNameStart c ∨ IsDecimal c ∨ c = '"' ∨ ∃ a, Symbol.ofChar? c = some a := by
  constructor
  · rintro ⟨k, w, h⟩
    rcases h.head rfl with ⟨hc, -⟩ | ⟨hc, -⟩ | ⟨hc, -⟩ | ⟨a, -, hc, -⟩
    · exact .inl hc
    · exact .inr (.inl hc)
    · exact .inr (.inr (.inl hc))
    · exact .inr (.inr (.inr ⟨a, hc⟩))
  · rintro (hc | hc | rfl | ⟨a, ha⟩)
    · exact ⟨_, [], spelling_of_isWord d ⟨hc, List.forall_mem_nil _⟩⟩
    · exact ⟨_, [], .number (.whole (List.cons_ne_nil _ _) (by simpa using hc))⟩
    · exact ⟨_, _, spelling_empty d⟩
    · refine ⟨.symbol a, [], ?_⟩
      rw [← Symbol.text_of_ofChar? ha]
      exact .symbol a

end Token

end ScriptFront
