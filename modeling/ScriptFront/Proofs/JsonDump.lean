/-
The JSON dump can be read back.

Whatever the printer lays out is a text of the grammar (`Json.Prints`). The value
it is derived for is the one that was printed but for one thing: a control
character without a short escape is written with four digits and so comes back as
a code unit (`Piece.asRead`). Both items stand for the same character, hence a
string comes back as a string of the same text.

Each constructor of a value is printed well if its parts are. The two containers
share the argument for items on lines of their own (`derives_intercalate`): the
blanks in front of an item and the ones after the last are those that the grammar
allows around it. `Token.ofJson?` reads a token from its object; together with the
grammar it recovers all tokens of a dump (`Dump.json_lossless`).
-/
import Mathlib.Data.List.Forall2
import ScriptFront.Cursor
import ScriptFront.Dump
import ScriptFront.Proofs.JsonGrammar
import ScriptFront.Proofs.Tiling

set_option autoImplicit false

namespace ScriptFront

namespace Json

/-! ## Strings -/

/-- The item that a written character is read as. -/
def Piece.asRead (c : Char) : Piece :=
  if c < ' ' ∧ c ∉ shortEscapes.map (·.2) then .unit c.toNat else .char c

/-- A code unit below 256 has two zeros in front. -/
theorem unitOf?_hexDigit {n : Nat} (h : n < 256) :
    unitOf? '0' '0' (Text.hexDigit (n / 16)) (Text.hexDigit (n % 16)) = some n := by
  have hzero : Text.hexValue? '0' = some 0 := rfl
  have hhigh := Text.hexValue?_hexDigit (n / 16) (by omega)
  have hlow := Text.hexValue?_hexDigit (n % 16) (by omega)
  simp only [unitOf?, hzero, hhigh, hlow, Option.bind_eq_bind, Option.bind_some]
  exact congrArg some (by omega)

/-- A character is written as an item of the grammar: a short escape, a long one or itself. -/
theorem item_escape (c : Char) : Item (Piece.asRead c) (escape c) := by
  unfold escape
  split
  case h_8 hquote hslash hb ht hn hf hr =>
    -- Without a short escape, a control has its digits written and all else stands
    -- for itself.
    split
    case isTrue hcontrol =>
      have hlong : c ∉ shortEscapes.map (·.2) := by
        have hsolidus : c ≠ '/' := by
          rintro rfl
          exact absurd hcontrol (by decide)
        simp only [shortEscapes, List.map_cons, List.map_nil, List.mem_cons, List.not_mem_nil,
          or_false, not_or]
        exact ⟨hquote, hslash, hsolidus, hb, hf, hn, hr, ht⟩
      rw [Piece.asRead, if_pos ⟨hcontrol, hlong⟩]
      have hsmall : c.toNat < 32 := hcontrol
      exact .unit (unitOf?_hexDigit (by omega))
    case isFalse hvisible =>
      rw [Piece.asRead, if_neg fun h => hvisible h.1]
      exact .plain (Char.not_lt.mp hvisible) hquote hslash
  all_goals exact .short (by decide)

/-- A written text is read as its characters. -/
theorem items_escape (s : List Char) : Items (s.map Piece.asRead) (s.flatMap escape) := by
  induction s with
  | nil => exact .nil
  | cons c s ih => exact .cons (item_escape c) ih

/-- A code unit that is no half of a surrogate pair is a character whatever follows. -/
theorem text?_unit {n : Nat} (h : n < 0xD800) (ps : List Piece) :
    Piece.text? (.unit n :: ps) = (Char.ofNat n :: ·) <$> Piece.text? ps := by
  have hhigh : Piece.isHigh n = false := by
    simp only [Piece.isHigh, Bool.and_eq_false_iff, decide_eq_false_iff_not]
    omega
  have hlow : Piece.isLow n = false := by
    simp only [Piece.isLow, Bool.and_eq_false_iff, decide_eq_false_iff_not]
    omega
  rcases ps with - | ⟨c | l, ps⟩
  · simp only [Piece.text?, hhigh, hlow, Bool.or_self, Bool.false_eq_true, if_false]
  · simp only [Piece.text?, hhigh, hlow, Bool.or_self, Bool.false_eq_true, if_false]
  · simp only [Piece.text?, hhigh, hlow, Bool.false_eq_true, if_false]

/-- The items that a text is written in are read as that text. -/
theorem text?_map_asRead (s : List Char) : Piece.text? (s.map Piece.asRead) = some s := by
  induction s with
  | nil => rfl
  | cons c s ih =>
    rw [List.map_cons, Piece.asRead]
    split
    case isTrue h =>
      have hsmall : c.toNat < 32 := h.1
      rw [text?_unit (by omega), ih, Char.ofNat_toNat]
      rfl
    case isFalse =>
      rw [Piece.text?, ih]
      rfl

/-! ## Printing -/

/-- Laid out tall at any depth, the first value is derived as the second. -/
def Prints (j j' : Json) : Prop := ∀ depth, Derives (.value j') (tall depth j).toList

/-- A text as it comes back. -/
def textAsRead (s : String) : Json := .string (s.toList.map Piece.asRead)

/-- A named value with its name as it comes back. -/
def memberAsRead (m : String × Json) : List Piece × Json := (m.1.toList.map Piece.asRead, m.2)

/-- Named values with their names as they come back. -/
def recordAsRead (members : List (String × Json)) : Json := .object (members.map memberAsRead)

/-- A quoted text are its characters, escaped, between two quotes. -/
theorem toList_quote (s : String) :
    (quote (s.toList.map .char)).toList = '"' :: (s.toList.flatMap escape ++ ['"']) := by
  rw [quote, String.toList_ofList, List.flatMap_map]
  rfl

/-- A text between its quotes. -/
theorem derives_quote (s : String) :
    Derives (.value (textAsRead s)) (quote (s.toList.map .char)).toList := by
  rw [toList_quote]
  exact .string (items_escape _)

/-- A natural number in its digits. -/
theorem derives_write (n : Nat) : Derives (.value (.nat n)) (Numeral.write { whole := n }).toList := by
  have hdigits : Digits (toString n).toList := by
    obtain ⟨c, ds, hcons, -⟩ := exists_cons_toString n
    exact ⟨hcons ▸ List.cons_ne_nil _ _, isDigit_of_mem_toString⟩
  have hwhole : IsWhole (toString n).toList := by
    refine ⟨hdigits, fun hzero => ?_⟩
    rw [eq_zero_of_head?_toString hzero]
    rfl
  have htext := NumeralText.mk false hwhole (.inl rfl) (.inl rfl)
  rw [ofDigitChars_toString] at htext
  have hwrite : (Numeral.write { whole := n }).toList =
      (if false then ['-'] else []) ++ ((toString n).toList ++ ([] ++ [])) := by
    simp [Numeral.write]
  rw [hwrite]
  exact .number htext

/-- A text is printed as a string that is read as it. -/
theorem prints_text (s : String) : Prints (.text s) (textAsRead s) := by
  intro depth
  rw [text, tall]
  exact derives_quote s

/-- A number is printed as a numeral that is read as it. -/
theorem prints_nat (n : Nat) : Prints (.nat n) (.nat n) := by
  intro depth
  rw [nat, tall]
  exact derives_write n

/-! ## Items on lines of their own -/

/-- The text is derived for the phrase with any blanks around it. -/
def Derives.Around (p : Phrase) (s : List Char) : Prop :=
  ∀ w w' : List Char, Blanks w → Blanks w' → Derives p (w ++ (s ++ w'))

theorem blanks_nil : Blanks [] := List.forall_mem_nil _

theorem blanks_singleton {c : Char} (h : IsBlank c) : Blanks [c] := List.forall_mem_singleton.mpr h

/-- A line feed with its indentation is blank. -/
theorem blanks_newline (depth : Nat) : Blanks (newline depth).toList := by
  intro c hc
  rw [newline, String.toList_append, Text.toList_replicate] at hc
  rcases List.mem_append.mp hc with hline | hindent
  · rw [List.mem_singleton.mp hline]
    decide
  · rw [List.eq_of_mem_replicate hindent]
    decide

section Containers

-- The items of a sequence and the members of an object are put together alike.
variable {α : Type} {one : α → Phrase} {many : List α → Phrase}
  (hlast : ∀ {a : α} {s : List Char}, Derives (one a) s → Derives (many [a]) s)
  (hthen : ∀ {a : α} {as : List α} {s t : List Char}, Derives (one a) s → Derives (many as) t →
    Derives (many (a :: as)) (s ++ ',' :: t))
  {as : List α} {items : List String}
  (h : List.Forall₂ (fun a item => Derives.Around (one a) item.toList) as items)
include hlast hthen h

theorem derives_intercalate (hne : as ≠ []) {separator : String}
    (hseparator : Blanks separator.toList) {w w' : List Char} (hw : Blanks w) (hw' : Blanks w') :
    Derives (many as) (w ++ ((("," ++ separator).intercalate items).toList ++ w')) := by
  induction h generalizing w with
  | nil => exact absurd rfl hne
  | @cons a item as items ha hrest ih =>
    cases hrest with
    | nil =>
      rw [String.intercalate_singleton]
      exact hlast (ha w w' hw hw')
    | @cons a' item' as items _ _ =>
      -- The blanks of the separator go in front of the items that are left.
      have htail := ih (List.cons_ne_nil _ _) hseparator
      have hhead := ha w [] hw blanks_nil
      have hsplit : w ++ ((("," ++ separator).intercalate (item :: item' :: items)).toList ++ w') =
          w ++ (item.toList ++ []) ++ ',' :: (separator.toList ++
            ((("," ++ separator).intercalate (item' :: items)).toList ++ w')) := by
        simp [String.intercalate_cons_cons]
      rw [hsplit]
      exact hthen hhead htail

/-- Between the brackets of a container stand its items, or nothing. -/
theorem derives_stacked (depth : Nat) :
    ∃ s, (as = [] ∧ Blanks s ∨ Derives (many as) s) ∧ ∀ opening closing : String,
      (stacked depth opening closing items).toList = opening.toList ++ (s ++ closing.toList) := by
  by_cases hne : as = []
  · subst hne
    refine ⟨[], .inl ⟨rfl, blanks_nil⟩, fun opening closing => ?_⟩
    rw [List.forall₂_nil_left_iff.mp h, stacked, List.isEmpty_nil, if_pos rfl,
      String.toList_append, List.nil_append]
  · have hitems : items ≠ [] := by
      rintro rfl
      exact hne (List.forall₂_nil_right_iff.mp h)
    refine ⟨_, .inr (derives_intercalate hlast hthen h hne (blanks_newline (depth + 1))
      (blanks_newline (depth + 1)) (blanks_newline depth)), fun opening closing => ?_⟩
    rw [stacked, if_neg (mt List.isEmpty_iff.mp hitems)]
    simp only [String.toList_append, List.append_assoc]

end Containers

theorem Derives.around {j : Json} {s : List Char} (h : Derives (.value j) s) :
    Derives.Around (.element j) s :=
  fun _ _ hw hw' => .element hw h hw'

theorem Derives.around_member {s : String} {j : Json} {b t : List Char}
    (h : Derives (.value j) t) (hb : Blanks b) :
    Derives.Around (.member (s.toList.map Piece.asRead, j))
      ((quote (s.toList.map .char)).toList ++ (':' :: (b ++ t))) := by
  intro w w' hw hw'
  have hmember := Derives.member hw (items_escape s.toList) blanks_nil (.element hb h hw')
  rw [toList_quote, List.append_assoc]
  simpa using hmember

/-- **A sequence is printed as a sequence** of what its items are printed as. -/
theorem prints_array {js js' : List Json} (h : List.Forall₂ Prints js js') :
    Prints (.array js) (.array js') := by
  intro depth
  have hitems : List.Forall₂ (fun j item => Derives.Around (.element j) item.toList) js'
      (js.map fun j => tall (depth + 1) j) :=
    List.forall₂_map_right_iff.mpr (h.flip.imp fun _ _ hj => (hj (depth + 1)).around)
  obtain ⟨s, hs, htext⟩ := derives_stacked .item .itemThen hitems depth
  rw [tall, htext]
  rcases hs with ⟨rfl, hs⟩ | hs
  · exact .emptyArray hs
  · exact .array hs

/-- **A record is printed as an object** whose members have its names, in its order. -/
theorem prints_record {members members' : List (String × Json)}
    (h : List.Forall₂ (fun m m' => m.1 = m'.1 ∧ Prints m.2 m'.2) members members') :
    Prints (.record members) (recordAsRead members') := by
  intro depth
  have hitems : List.Forall₂ (fun m item => Derives.Around (.member m) item.toList)
      (members'.map memberAsRead)
      ((members.map fun m => (m.1.toList.map Piece.char, m.2)).map fun member =>
        quote member.1 ++ ": " ++ tall (depth + 1) member.2) := by
    rw [List.map_map]
    refine List.forall₂_map_left_iff.mpr (List.forall₂_map_right_iff.mpr (h.flip.imp ?_))
    rintro ⟨name, j⟩ ⟨_, j'⟩ ⟨rfl, hj⟩
    simp only [Function.comp_apply, String.toList_append, List.append_assoc]
    exact (hj (depth + 1)).around_member (blanks_singleton (c := ' ') (by decide))
  obtain ⟨s, hs, htext⟩ := derives_stacked .lastMember .memberThen hitems depth
  -- With projections in place of the pattern, the members are those of `hitems`.
  have hrecord : record members =
      .object (members.map fun m => (m.1.toList.map Piece.char, m.2)) := rfl
  rw [hrecord, recordAsRead, tall, htext]
  rcases hs with ⟨hnil, hs⟩ | hs
  · rw [hnil]
    exact .emptyObject hs
  · exact .object hs

/-! ## Reading tokens -/

/-- What is read back item by item is read back as a whole. -/
theorem mapM_map_of_inverse {α β : Type} {f : β → Option α} {g : α → β}
    (h : ∀ a, f (g a) = some a) (as : List α) : (as.map g).mapM f = some as := by
  induction as with
  | nil => rfl
  | cons a as ih =>
    rw [List.map_cons, List.mapM_cons, h, ih]
    rfl

/-- The names of printed members come back as they were. -/
theorem named?_map_memberAsRead (members : List (String × Json)) :
    named? (members.map memberAsRead) = some members := by
  refine mapM_map_of_inverse ?_ members
  rintro ⟨name, j⟩
  simp only [memberAsRead, text?_map_asRead, Option.bind_eq_bind, Option.bind_some,
    String.ofList_toList]
  rfl

/-- A text that has been printed is read back. -/
theorem text?_textAsRead (s : String) : (textAsRead s).text? = some s := by
  rw [textAsRead, text?, text?_map_asRead]
  exact congrArg some String.ofList_toList

/-- A text with a quote, a backslash, a line feed, another control character and DEL. -/
example :
    let s := "\"\\\n\x01\x7f"
    (read? (quote (s.toList.map .char)).toList).bind text? = some s := by
  decide +kernel

end Json

/-- A span as it comes back. -/
def Span.asRead (s : Span) : Json :=
  Json.recordAsRead [("start", s.start.toJson), ("end", s.stop.toJson)]

theorem Span.prints (s : Span) : Json.Prints s.toJson s.asRead :=
  Json.prints_record (.cons ⟨rfl, Json.prints_nat _⟩ (.cons ⟨rfl, Json.prints_nat _⟩ .nil))

/-- A span that has been printed is read back. -/
theorem Span.ofJson?_asRead (s : Span) : Span.ofJson? s.asRead = some s := by
  rw [asRead, Json.recordAsRead, Span.ofJson?, Json.named?_map_memberAsRead]
  simp [Json.lookup?, Offset.ofJson?_toJson]

namespace Token

/-- The token that an object of its four named parts tells. -/
def ofJson? : Json → Option Token
  | .object members => do
    match ← Json.named? members with
    | [("kind", kind), ("lexeme", lexeme), ("line", line), ("span", .object span)] =>
      return {
        kind := ← Kind.ofName? (← kind.text?)
        lexeme := ← lexeme.text?
        line := ← line.nat?
        span := ← Span.ofJson? (.object span) }
    | _ => none
  | _ => none

/-- A token as it comes back. -/
def asRead (t : Token) : Json :=
  Json.recordAsRead [("kind", Json.textAsRead t.kind.name), ("lexeme", Json.textAsRead t.lexeme),
    ("line", .nat t.line), ("span", t.span.asRead)]

/-- A token is printed as an object of its four parts. -/
theorem prints (t : Token) : Json.Prints t.toJson t.asRead :=
  Json.prints_record (.cons ⟨rfl, Json.prints_text _⟩ (.cons ⟨rfl, Json.prints_text _⟩
    (.cons ⟨rfl, Json.prints_nat _⟩ (.cons ⟨rfl, t.span.prints⟩ .nil))))

/-- **A token that has been printed is read back** with its class, its lexeme, its line and its
span. -/
theorem ofJson?_asRead (t : Token) : Token.ofJson? t.asRead = some t := by
  have hspan : Span.ofJson? (.object _) = some t.span := t.span.ofJson?_asRead
  rw [asRead, Json.recordAsRead, Token.ofJson?, Json.named?_map_memberAsRead]
  simp only [Option.bind_eq_bind, Option.bind_some, Span.asRead, Json.recordAsRead, hspan,
    Json.text?_textAsRead, Kind.ofName?_name, Json.nat?_nat]
  rfl

end Token

namespace Dump

/-! ## The dump as a whole -/

/-- The dump of any tokens is a text of the grammar, derived for the sequence of
them. -/
theorem derives_json (tokens : List Token) :
    Json.Derives (.element (.array (tokens.map Token.asRead))) (json tokens).toList := by
  have hblank : Json.Blanks ['\n'] := Json.blanks_singleton (by decide)
  have htokens : List.Forall₂ Json.Prints (tokens.map Token.toJson) (tokens.map Token.asRead) :=
    List.forall₂_map_left_iff.mpr (List.forall₂_map_right_iff.mpr
      (List.forall₂_same.mpr fun t _ => t.prints))
  rw [json, String.toList_append]
  exact .element Json.blanks_nil (Json.prints_array htokens 0) hblank

/-- Any tokens that have been printed are read back, in their order. -/
theorem mapM_ofJson?_asRead (tokens : List Token) :
    (tokens.map Token.asRead).mapM Token.ofJson? = some tokens :=
  Json.mapM_map_of_inverse Token.ofJson?_asRead tokens

/-- **The JSON dump of a source is well-formed and loses nothing.** It is derived by
the grammar for one value, which the reader finds: a sequence with an object for
each token, in order, that tells the token's class, lexeme, line and span. The last
object, and no other, tells the end token. So two sources, each in its dialect, have
the same dump if and only if they have the same tokens. -/
theorem json_lossless :
    (∀ (d : Dialect) (source : String), ∃ (items : List Json) (last : Json) (ending : Token),
      (∀ j, Json.Derives (.element j) (json (Token.ofSource d source)).toList ↔
        j = .array (items ++ [last])) ∧
      Json.read? (json (Token.ofSource d source)).toList = some (.array (items ++ [last])) ∧
      (items ++ [last]).mapM Token.ofJson? = some (Token.ofSource d source) ∧
      Token.ofJson? last = some ending ∧ ending.kind = .eof ∧
      ∀ j ∈ items, ∀ t, Token.ofJson? j = some t → t.kind ≠ .eof) ∧
    ∀ (d d' : Dialect) (source source' : String),
      json (Token.ofSource d source) = json (Token.ofSource d' source') ↔
        Token.ofSource d source = Token.ofSource d' source' := by
  refine ⟨fun d source => ?_, fun d d' source source' => ⟨fun hsame => ?_, congrArg json⟩⟩
  · have hderives := derives_json (Token.ofSource d source)
    have hback := mapM_ofJson?_asRead (Token.ofSource d source)
    obtain ⟨others, ending, htokens, hending, hothers⟩ := Token.ofSource_eq_concat d source
    have hitems : (Token.ofSource d source).map Token.asRead =
        others.map Token.asRead ++ [ending.asRead] := by
      rw [htokens, List.map_append, List.map_singleton]
    rw [hitems] at hderives hback
    refine ⟨_, _, ending, fun j => ⟨fun h => h.unique hderives, ?_⟩, hderives.read?_eq, hback,
      Token.ofJson?_asRead ending, hending, ?_⟩
    · rintro rfl
      exact hderives
    · intro j hj t ht
      obtain ⟨t', ht', rfl⟩ := List.mem_map.mp hj
      rw [Token.ofJson?_asRead] at ht
      exact Option.some.inj ht ▸ hothers t' ht'
  · have hderives := derives_json (Token.ofSource d source)
    rw [hsame] at hderives
    have hitems := Json.array.inj (hderives.unique (derives_json (Token.ofSource d' source')))
    rw [← Option.some_inj, ← mapM_ofJson?_asRead, hitems, mapM_ofJson?_asRead]

end Dump

end ScriptFront
