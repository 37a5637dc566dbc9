/-
The JSON forms of offsets, spans, dialects and classes.

What is written without blanks is a text of the grammar and is read back as what it was written
for. The other way round, which texts are read as a value is told by the grammar and by what is
written under the known names. So the blanks make no difference, nor does anything else that leaves
the named values what they are, and after a value nothing comes but blanks.
-/
import ScriptFront.Proofs.JsonDump
import ScriptFront.Proofs.JsonSoundness
import ScriptFront.Proofs.NamedValues

set_option autoImplicit false

namespace ScriptFront

namespace Json

variable {α : Type}

/-! ## Reading a form -/

/-- What a text stands for in a form: it is read as a JSON value first. -/
def decode? (form : Json → Option α) (text : String) : Option α := (read? text.toList).bind form

/-- **A text is read in a form** exactly if the grammar derives it for a value that has the
form. -/
theorem decode?_eq_some_iff {form : Json → Option α} {text : String} {a : α} :
    decode? form text = some a ↔ ∃ j, Derives (.element j) text.toList ∧ form j = some a := by
  simp only [decode?, Option.bind_eq_some_iff, read?_eq_some_iff]

/-- A text is read as the form says of the value that it is derived for. -/
theorem decode?_of_derives {form : Json → Option α} {text : String} {j : Json}
    (h : Derives (.element j) text.toList) : decode? form text = form j := by
  rw [decode?, h.read?_eq, Option.bind_some]

/-- After a value that is no numeral nothing may come but blanks, whatever is looked for. -/
theorem decode?_append_eq_none {j : Json} {text rest : String}
    (h : Derives (.element j) text.toList) (hj : ∀ n, j ≠ .number n)
    (hrest : ¬ Blanks rest.toList) (form : Json → Option α) :
    decode? form (text ++ rest) = none := by
  rw [decode?, String.toList_append, read?_append_eq_none h hj hrest, Option.bind_none]

/-! ## What is written -/

/-- Laid out without blanks, the first value is derived as the second. -/
def PrintsClosed (j j' : Json) : Prop := Derives (.value j') (compact j).toList

/-- A text is printed as a string that is closed by its quote. -/
theorem printsClosed_text (s : String) : PrintsClosed (.text s) (textAsRead s) := by
  rw [PrintsClosed, text, compact]
  exact derives_quote s

/-- A number is printed as a numeral. -/
theorem printsClosed_nat (n : Nat) : PrintsClosed (.nat n) (.nat n) := by
  rw [PrintsClosed, nat, compact]
  exact derives_write n

theorem printsClosed_bool (b : Bool) : PrintsClosed (.bool b) (.bool b) := by
  rw [PrintsClosed, compact]
  cases b with
  | true => exact .wordTrue
  | false => exact .wordFalse

/-- A record with members is printed as an object that is closed by its brace. -/
theorem printsClosed_record {members members' : List (String × Json)} (hne : members' ≠ [])
    (h : List.Forall₂ (fun m m' => m.1 = m'.1 ∧ PrintsClosed m.2 m'.2) members members') :
    PrintsClosed (.record members) (recordAsRead members') := by
  have hitems : List.Forall₂ (fun m item => Derives.Around (.member m) item.toList)
      (members'.map memberAsRead)
      ((members.map fun m => (m.1.toList.map Piece.char, m.2)).map fun member =>
        quote member.1 ++ ":" ++ compact member.2) := by
    rw [List.map_map]
    refine List.forall₂_map_left_iff.mpr (List.forall₂_map_right_iff.mpr (h.flip.imp ?_))
    rintro ⟨name, j⟩ ⟨_, j'⟩ ⟨rfl, hj⟩
    simp only [Function.comp_apply, String.toList_append, List.append_assoc]
    exact Derives.around_member hj blanks_nil
  have hrecord : record members =
      .object (members.map fun m => (m.1.toList.map Piece.char, m.2)) := rfl
  have hnone : Blanks ("" : String).toList := blanks_nil
  have hmembers := derives_intercalate .lastMember .memberThen hitems
    (mt List.map_eq_nil_iff.mp hne) hnone blanks_nil blanks_nil
  rw [PrintsClosed, hrecord, recordAsRead, compact]
  simpa using Derives.object hmembers

/-- What is printed is read as the form says of what it is printed for. -/
theorem decode?_of_printsClosed {form : Json → Option α} {j j' : Json}
    (h : PrintsClosed j j') : decode? form j.compact = form j' := by
  have helement := Derives.element blanks_nil h blanks_nil
  rw [List.nil_append, List.append_nil] at helement
  exact decode?_of_derives helement

end Json

/-! ## Reading back -/

/-- A dialect comes back from the object that it is printed as. -/
theorem Dialect.ofJson?_asRead (d : Dialect) :
    Dialect.ofJson? (Json.recordAsRead [("distinct_fun", .bool d.distinctFun)]) = some d := by
  rw [Json.recordAsRead, Dialect.ofJson?, Json.named?_map_memberAsRead]
  simp [Json.lookup?, Json.bool?]

/-- A class comes back from the string that it is printed as. -/
theorem Token.Kind.ofJson?_asRead (k : Kind) :
    Token.Kind.ofJson? (Json.textAsRead k.name) = some k := by
  rw [Json.textAsRead, Token.Kind.ofJson?_eq_some_iff]
  exact ⟨_, Json.text?_map_asRead _, .inl rfl⟩

theorem Offset.printsClosed (o : Offset) : Json.PrintsClosed o.toJson o.toJson :=
  Json.printsClosed_nat o.toNat

/-- A span is printed so that it is read back, with its offsets in their order. -/
theorem Span.printsClosed (s : Span) : Json.PrintsClosed s.toJson s.asRead := by
  apply Json.printsClosed_record (List.cons_ne_nil _ _)
  exact .cons ⟨rfl, s.start.printsClosed⟩ (.cons ⟨rfl, s.stop.printsClosed⟩ .nil)

/-- A dialect is printed so that it is read back, as the one member of an object. -/
theorem Dialect.printsClosed (d : Dialect) :
    Json.PrintsClosed d.toJson (Json.recordAsRead [("distinct_fun", .bool d.distinctFun)]) := by
  apply Json.printsClosed_record (List.cons_ne_nil _ _)
  exact .cons ⟨rfl, Json.printsClosed_bool d.distinctFun⟩ .nil

/-! What is written in a form is read back. -/

/-- An offset is read back from what is written for it. -/
theorem Offset.decode?_compact (o : Offset) :
    Json.decode? Offset.ofJson? o.toJson.compact = some o := by
  rw [Json.decode?_of_printsClosed o.printsClosed, Offset.ofJson?_toJson]

/-- A span is read back from what is written for it. -/
theorem Span.decode?_compact (s : Span) :
    Json.decode? Span.ofJson? s.toJson.compact = some s := by
  rw [Json.decode?_of_printsClosed s.printsClosed, Span.ofJson?_asRead]

/-- A dialect is read back from what is written for it. -/
theorem Dialect.decode?_compact (d : Dialect) :
    Json.decode? Dialect.ofJson? d.toJson.compact = some d := by
  rw [Json.decode?_of_printsClosed d.printsClosed, Dialect.ofJson?_asRead]

/-- A class is read back from what is written for it. -/
theorem Token.Kind.decode?_compact (k : Kind) :
    Json.decode? Token.Kind.ofJson? k.toJson.compact = some k := by
  have hprints : Json.PrintsClosed k.toJson (Json.textAsRead k.name) := Json.printsClosed_text k.name
  rw [Json.decode?_of_printsClosed hprints, Token.Kind.ofJson?_asRead]

namespace Json

/-! ## Which texts are read -/

/-- A natural number is written as digits without a zero in front, between blanks. -/
theorem derives_nat_iff {n : Nat} {s : List Char} :
    Derives (.element (.nat n)) s ↔ ∃ w ds w', s = w ++ (ds ++ w') ∧ Blanks w ∧ Blanks w' ∧
      IsWhole ds ∧ Nat.ofDigitChars 10 ds 0 = n := by
  constructor
  · intro h
    cases h with
    | element hw hs hw' =>
      generalize hj : nat n = j at hs
      cases hs with
      | number hn =>
        obtain ⟨negative, hwhole, hfraction, hexponent⟩ := hn
        cases hj
        exact ⟨_, _, _, rfl, hw, hw', by simpa using hwhole, by simp⟩
      | _ => cases hj
  · rintro ⟨w, ds, w', rfl, hw, hw', hwhole, rfl⟩
    have htext := NumeralText.mk false hwhole (.inl rfl) (.inl rfl)
    have helement := Derives.element hw (.number htext) hw'
    simpa [nat] using helement

end Json

open Json (Derives Blanks IsWhole Legible valuesOf decode? decode?_eq_some_iff)

/-- An offset is read from digits between blanks. -/
theorem Offset.decode?_iff {text : String} {o : Offset} :
    decode? Offset.ofJson? text = some o ↔
      ∃ w ds w', text.toList = w ++ (ds ++ w') ∧ Blanks w ∧ Blanks w' ∧ IsWhole ds ∧
        Nat.ofDigitChars 10 ds 0 = o.toNat := by
  simp only [decode?_eq_some_iff, Offset.ofJson?_eq_some_iff, exists_eq_right]
  exact Json.derives_nat_iff

/-- A span is read from a sequence of its two offsets, or from an object with each of the two
names once. -/
theorem Span.decode?_iff {text : String} {s : Span} :
    decode? Span.ofJson? text = some s ↔
      Derives (.element (.array [s.start.toJson, s.stop.toJson])) text.toList ∨
        ∃ ms, Derives (.element (.object ms)) text.toList ∧ Legible ms ∧
          valuesOf "start" ms = [s.start.toJson] ∧ valuesOf "end" ms = [s.stop.toJson] := by
  simp only [decode?_eq_some_iff, Span.ofJson?_eq_some_iff]
  constructor
  · rintro ⟨_, h, rfl | ⟨ms, rfl, htold⟩⟩
    · exact .inl h
    · exact .inr ⟨ms, h, htold⟩
  · rintro (h | ⟨ms, h, htold⟩)
    · exact ⟨_, h, .inl rfl⟩
    · exact ⟨_, h, .inr ⟨ms, rfl, htold⟩⟩

/-- A dialect is read from a sequence of its choice or of nothing, or from an object with the
name of the choice once or not at all. -/
theorem Dialect.decode?_iff {text : String} {d : Dialect} :
    decode? Dialect.ofJson? text = some d ↔
      Derives (.element (.array [])) text.toList ∧ d.distinctFun = false ∨
        Derives (.element (.array [.bool d.distinctFun])) text.toList ∨
        ∃ ms, Derives (.element (.object ms)) text.toList ∧ Legible ms ∧
          (valuesOf "distinct_fun" ms = [] ∧ d.distinctFun = false ∨
            valuesOf "distinct_fun" ms = [.bool d.distinctFun]) := by
  simp only [decode?_eq_some_iff, Dialect.ofJson?_eq_some_iff]
  constructor
  · rintro ⟨_, h, ⟨rfl, hfalse⟩ | rfl | ⟨ms, rfl, htold⟩⟩
    · exact .inl ⟨h, hfalse⟩
    · exact .inr (.inl h)
    · exact .inr (.inr ⟨ms, h, htold⟩)
  · rintro (⟨h, hfalse⟩ | h | ⟨ms, h, htold⟩)
    · exact ⟨_, h, .inl ⟨rfl, hfalse⟩⟩
    · exact ⟨_, h, .inr (.inl rfl)⟩
    · exact ⟨_, h, .inr (.inr ⟨ms, rfl, htold⟩)⟩

/-- A class is read from its name, alone or with a null value. -/
theorem Token.Kind.decode?_iff {text : String} {k : Kind} :
    decode? Token.Kind.ofJson? text = some k ↔ ∃ ps, Json.Piece.text? ps = some k.name.toList ∧
      (Derives (.element (.string ps)) text.toList ∨
        Derives (.element (.object [(ps, .null)])) text.toList) := by
  simp only [decode?_eq_some_iff, Token.Kind.ofJson?_eq_some_iff]
  constructor
  · rintro ⟨_, h, ps, hps, rfl | rfl⟩
    · exact ⟨ps, hps, .inl h⟩
    · exact ⟨ps, hps, .inr h⟩
  · rintro ⟨ps, hps, h | h⟩
    · exact ⟨_, h, ps, hps, .inl rfl⟩
    · exact ⟨_, h, ps, hps, .inr rfl⟩

namespace Json

/-! ## The forms as a whole -/

theorem Derives.of_eq {p : Phrase} {s t : List Char} (h : Derives p s) (hsame : s = t) :
    Derives p t :=
  hsame ▸ h

/-- Names that are texts are looked up as these. -/
theorem valuesOf_map_memberAsRead (name : String) (members : List (String × Json)) :
    valuesOf name (members.map memberAsRead) = (members.filter (·.1 = name)).map (·.2) := by
  rw [valuesOf, List.filter_map, List.map_map]
  simp [Function.comp_def, memberAsRead, text?_map_asRead, String.toList_inj]

/-- **The JSON forms are read back, and nothing else is read.** What is written for an offset, a
span, a dialect or a class is read as that, and the texts that are read at all are told by the
grammar. In an object of a span or a dialect the order of the members, the blanks and the members
with other names make no difference, as long as these names stand for texts. An object is turned
away if a name stands for none, if a known name stands twice, if an offset is missing or is no
natural number up to the limit; a choice left out is `false`. After anything but a numeral nothing
may come but blanks. -/
theorem decode?_forms :
    ((∀ o : Offset, decode? Offset.ofJson? o.toJson.compact = some o) ∧
      (∀ s : Span, decode? Span.ofJson? s.toJson.compact = some s) ∧
      (∀ d : Dialect, decode? Dialect.ofJson? d.toJson.compact = some d) ∧
      ∀ k : Token.Kind, decode? Token.Kind.ofJson? k.toJson.compact = some k) ∧
    (∀ text : String,
      (∀ o, decode? Offset.ofJson? text = some o ↔
        ∃ w ds w', text.toList = w ++ (ds ++ w') ∧ Blanks w ∧ Blanks w' ∧ IsWhole ds ∧
          Nat.ofDigitChars 10 ds 0 = o.toNat) ∧
      (∀ s, decode? Span.ofJson? text = some s ↔
        Derives (.element (.array [s.start.toJson, s.stop.toJson])) text.toList ∨
          ∃ ms, Derives (.element (.object ms)) text.toList ∧ Legible ms ∧
            valuesOf "start" ms = [s.start.toJson] ∧ valuesOf "end" ms = [s.stop.toJson]) ∧
      (∀ d, decode? Dialect.ofJson? text = some d ↔
        Derives (.element (.array [])) text.toList ∧ d.distinctFun = false ∨
          Derives (.element (.array [.bool d.distinctFun])) text.toList ∨
          ∃ ms, Derives (.element (.object ms)) text.toList ∧ Legible ms ∧
            (valuesOf "distinct_fun" ms = [] ∧ d.distinctFun = false ∨
              valuesOf "distinct_fun" ms = [.bool d.distinctFun])) ∧
      ∀ k, decode? Token.Kind.ofJson? text = some k ↔
        ∃ ps, Piece.text? ps = some k.name.toList ∧
          (Derives (.element (.string ps)) text.toList ∨
            Derives (.element (.object [(ps, .null)])) text.toList)) ∧
    (∀ (ms extra ms' : List (List Piece × Json)) (text text' : String), (ms ++ extra).Perm ms' →
      Derives (.element (.object ms)) text.toList →
      Derives (.element (.object ms')) text'.toList →
        ((∀ m ∈ extra, IsUnknown ["start", "end"] m.1) →
          decode? Span.ofJson? text' = decode? Span.ofJson? text) ∧
        ((∀ m ∈ extra, IsUnknown ["distinct_fun"] m.1) →
          decode? Dialect.ofJson? text' = decode? Dialect.ofJson? text)) ∧
    (∀ (ms : List (List Piece × Json)) (text : String),
      Derives (.element (.object ms)) text.toList →
        ((¬ Legible ms ∨ ∃ name ∈ ["start", "end"], valuesOf name ms = [] ∨
            1 < (valuesOf name ms).length ∨
            ∃ v ∈ valuesOf name ms, ∀ n, n ≤ Offset.last → v ≠ .nat n) →
          decode? Span.ofJson? text = none) ∧
        ((¬ Legible ms ∨ 1 < (valuesOf "distinct_fun" ms).length) →
          decode? Dialect.ofJson? text = none) ∧
        (Legible ms → valuesOf "distinct_fun" ms = [] →
          decode? Dialect.ofJson? text = some ⟨false⟩)) ∧
    ∀ (j : Json) (text rest : String), Derives (.element j) text.toList →
      (∀ n, j ≠ .number n) → ¬ Blanks rest.toList →
        ∀ (β : Type) (form : Json → Option β), decode? form (text ++ rest) = none := by
  refine ⟨⟨Offset.decode?_compact, Span.decode?_compact, Dialect.decode?_compact,
    Token.Kind.decode?_compact⟩, ?_, ?_, ?_, ?_⟩
  · intro text
    exact ⟨fun _ => Offset.decode?_iff, fun _ => Span.decode?_iff, fun _ => Dialect.decode?_iff,
      fun _ => Token.Kind.decode?_iff⟩
  · intro ms extra ms' text text' hperm htext htext'
    rw [decode?_of_derives htext, decode?_of_derives htext', decode?_of_derives htext,
      decode?_of_derives htext']
    exact ⟨Span.ofJson?_of_perm hperm, Dialect.ofJson?_of_perm hperm⟩
  · intro ms text htext
    rw [decode?_of_derives htext, decode?_of_derives htext]
    refine ⟨Span.ofJson?_eq_none, Dialect.ofJson?_eq_none, ?_⟩
    intro hlegible hmissing
    exact Dialect.ofJson?_object_iff.mpr ⟨hlegible, .inl ⟨hmissing, rfl⟩⟩
  · intro j text rest htext hj hrest β form
    exact decode?_append_eq_none htext hj hrest form

/-- A span in another order and with a third member is read as the same, and is not read if a
digit follows it. -/
theorem decode?_forms_mixed :
    let text := "\x7b\"end\":2,\"start\":1\x7d"
    let mixed := "\x7b\"x\": true ,\"start\":1,\t\"end\":2\x7d"
    decode? Span.ofJson? text = some ⟨.ofNat 1, .ofNat 2⟩ ∧
      decode? Span.ofJson? mixed = decode? Span.ofJson? text ∧
      decode? Span.ofJson? (text ++ "0") = none := by
  intro text mixed
  obtain ⟨-, hexact, horder, -, htrailing⟩ := decode?_forms
  have hblank : Blanks [' '] := blanks_singleton (by decide)
  have htab : Blanks ['\t'] := blanks_singleton (by decide)
  have hstart : Derives.Around (.member (memberAsRead ("start", .nat 1))) _ :=
    Derives.around_member (derives_write 1) blanks_nil
  have hend : Derives.Around (.member (memberAsRead ("end", .nat 2))) _ :=
    Derives.around_member (derives_write 2) blanks_nil
  have hother : Derives.Around (.member (memberAsRead ("x", .bool true))) _ :=
    Derives.around_member .wordTrue hblank
  have htext : Derives (.element (.object ([("end", .nat 2), ("start", .nat 1)].map memberAsRead)))
      text.toList := by
    have hmembers := Derives.memberThen (hend [] [] blanks_nil blanks_nil)
      (.lastMember (hstart [] [] blanks_nil blanks_nil))
    exact (Derives.element blanks_nil (.object hmembers) blanks_nil).of_eq (by decide +kernel)
  have hmixed : Derives (.element (.object
      ([("x", .bool true), ("start", .nat 1), ("end", .nat 2)].map memberAsRead)))
      mixed.toList := by
    have hmembers := Derives.memberThen (hother [] [' '] blanks_nil hblank)
      (.memberThen (hstart [] [] blanks_nil blanks_nil)
        (.lastMember (hend ['\t'] [] htab blanks_nil)))
    exact (Derives.element blanks_nil (.object hmembers) blanks_nil).of_eq (by decide +kernel)
  have hperm : ∀ a b c : List Piece × Json, ([a, b] ++ [c]).Perm [c, b, a] := by
    intro a b c
    exact ((List.Perm.swap b a []).append_right [c]).trans List.perm_append_comm
  refine ⟨?_, ?_, ?_⟩
  · apply ((hexact _).2.1 _).mpr
    refine .inr ⟨_, htext, by decide, ?_, ?_⟩
    · rw [valuesOf_map_memberAsRead]
      rfl
    · rw [valuesOf_map_memberAsRead]
      rfl
  · apply (horder _ _ _ _ _ (hperm _ _ _) htext hmixed).1
    intro m hm
    rw [List.mem_singleton.mp hm]
    exact ⟨"x", text?_map_asRead _, by decide⟩
  · apply htrailing _ _ _ htext
    · intro n hn
      contradiction
    · intro hblanks
      exact absurd (hblanks '0' (by decide)) (by decide)

/-- **Not every other name may stand in an object.** A span is read without the third member and
not with it: its name is half of a surrogate pair, which the grammar allows and no text has. -/
theorem decode?_half_pair :
    let plain := "\x7b\"start\":1,\"end\":2\x7d"
    let text := "\x7b\"start\":1,\"end\":2,\"\\ud800\":0\x7d"
    let ms := [("start", .nat 1), ("end", .nat 2)].map memberAsRead
    Derives (.element (.object ms)) plain.toList ∧
      Derives (.element (.object (ms ++ [([.unit 0xD800], .nat 0)]))) text.toList ∧
      decode? Span.ofJson? plain = some ⟨.ofNat 1, .ofNat 2⟩ ∧ decode? Span.ofJson? text = none := by
  intro plain text ms
  have hstart : Derives.Around (.member (memberAsRead ("start", .nat 1))) _ :=
    Derives.around_member (derives_write 1) blanks_nil
  have hend : Derives.Around (.member (memberAsRead ("end", .nat 2))) _ :=
    Derives.around_member (derives_write 2) blanks_nil
  have hhalf : Items [.unit 0xD800] (['\\', 'u', 'd', '8', '0', '0'] ++ []) :=
    .cons (.unit (by decide)) .nil
  have hlone : Derives (.member ([.unit 0xD800], .nat 0)) _ :=
    .member blanks_nil hhalf blanks_nil (.element blanks_nil (derives_write 0) blanks_nil)
  have hplain := Derives.memberThen (hstart [] [] blanks_nil blanks_nil)
    (.lastMember (hend [] [] blanks_nil blanks_nil))
  have htext := Derives.memberThen (hstart [] [] blanks_nil blanks_nil)
    (.memberThen (hend [] [] blanks_nil blanks_nil) (.lastMember hlone))
  refine ⟨?_, ?_, by decide +kernel, by decide +kernel⟩
  · exact (Derives.element blanks_nil (.object hplain) blanks_nil).of_eq (by decide +kernel)
  · exact (Derives.element blanks_nil (.object htext) blanks_nil).of_eq (by decide +kernel)

end Json

end ScriptFront
