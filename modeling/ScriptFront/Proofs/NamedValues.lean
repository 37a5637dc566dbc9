/-
What is written under a name.

The forms of spans and dialects are read from named values, and all that counts is what is written
under the known names (`Json.valuesOf`): each of them once, or not at all where a value may be left
out. The order of the members and the members with other names make no difference, since none of
these changes what is written under a known name (`Json.valuesOf_perm`).

There is one condition on the other names: each has to stand for a text (`Json.Legible`). An escape
of half a surrogate pair stands for none, so named values with such a name are turned away,
whatever its value is.
-/
import Mathlib.Data.List.Perm.Basic
import ScriptFront.Json.Forms

set_option autoImplicit false

namespace ScriptFront

namespace Json

/-! ## Named values -/

/-- The values written under a name, in their order. -/
def valuesOf (name : String) (members : List (List Piece × Json)) : List Json :=
  (members.filter fun m => Piece.text? m.1 = some name.toList).map (·.2)

/-- Every name stands for a text. -/
def Legible (members : List (List Piece × Json)) : Prop :=
  ∀ m ∈ members, (Piece.text? m.1).isSome = true

instance (members : List (List Piece × Json)) : Decidable (Legible members) :=
  inferInstanceAs (Decidable (∀ m ∈ members, (Piece.text? m.1).isSome = true))

/-- The name stands for a text, and for none of the known ones. -/
def IsUnknown (known : List String) (name : List Piece) : Prop :=
  ∃ text : String, Piece.text? name = some text.toList ∧ text ∉ known

/-- Members have names in turn, if the name of each is a text. -/
theorem named?_cons (name : List Piece) (v : Json) (ms : List (List Piece × Json)) :
    named? ((name, v) :: ms) =
      (Piece.text? name).bind fun text => (named? ms).map fun l => (String.ofList text, v) :: l := by
  simp only [named?, List.mapM_cons, Option.bind_eq_bind, Option.pure_def]
  cases Piece.text? name with
  | none => rfl
  | some text =>
    simp only [Option.bind_some]
    exact Option.map_eq_bind.symm

/-- Names that stand for texts are read, and the values keep their order under each. -/
theorem exists_named? {ms : List (List Piece × Json)} (h : Legible ms) :
    ∃ l, named? ms = some l ∧
      ∀ name : String, (l.filter (·.1 == name)).map (·.2) = valuesOf name ms := by
  induction ms with
  | nil => exact ⟨[], rfl, fun _ => rfl⟩
  | cons m ms ih =>
    obtain ⟨key, v⟩ := m
    obtain ⟨text, htext⟩ := Option.isSome_iff_exists.mp (h (key, v) List.mem_cons_self)
    obtain ⟨l, hl, hvalues⟩ := ih fun m hm => h m (List.mem_cons_of_mem _ hm)
    refine ⟨(String.ofList text, v) :: l, ?_, ?_⟩
    · rw [named?_cons, htext, hl]
      rfl
    · intro name
      have hvalues := hvalues name
      unfold valuesOf at *
      by_cases hname : text = name.toList
      · have hsame : String.ofList text = name := by rw [hname, String.ofList_toList]
        rw [List.filter_cons_of_pos (by simpa using hsame),
          List.filter_cons_of_pos (by simpa [htext] using hname), List.map_cons, List.map_cons,
          hvalues]
      · have hother : String.ofList text ≠ name := by
          intro hsame
          rw [← hsame, String.toList_ofList] at hname
          exact hname rfl
        rw [List.filter_cons_of_neg (by simpa using hother),
          List.filter_cons_of_neg (by simpa [htext] using hname), hvalues]

/-- If the name of one member is no text, none of the members is read. -/
theorem named?_eq_none {ms : List (List Piece × Json)} (h : ¬ Legible ms) : named? ms = none := by
  induction ms with
  | nil => exact absurd (List.forall_mem_nil _) h
  | cons m ms ih =>
    obtain ⟨key, v⟩ := m
    rw [named?_cons]
    by_cases hkey : (Piece.text? key).isSome = true
    · have hrest : ¬ Legible ms := by
        intro hall
        exact h (List.forall_mem_cons.mpr ⟨hkey, hall⟩)
      rw [ih hrest]
      cases Piece.text? key <;> rfl
    · rw [Option.not_isSome_iff_eq_none.mp hkey, Option.bind_none]

/-- A name has a value exactly if one member has that name, with the value. -/
theorem lookup?_eq_some_some_iff {name : String} {l : List (String × Json)} {v : Json} :
    lookup? name l = some (some v) ↔ (l.filter (·.1 == name)).map (·.2) = [v] := by
  unfold lookup?
  split
  · next h => simp [h]
  · next h => simp [h]
  · next hnone hmany =>
    constructor
    · intro h
      contradiction
    · intro h
      obtain ⟨m, hm, -⟩ := List.map_eq_singleton_iff.mp h
      exact absurd hm (hmany m)

/-- A name has no value exactly if no member has that name. -/
theorem lookup?_eq_some_none_iff {name : String} {l : List (String × Json)} :
    lookup? name l = some none ↔ (l.filter (·.1 == name)).map (·.2) = [] := by
  unfold lookup?
  split
  · next h => simp [h]
  · next h => simp [h]
  · next hnone hmany =>
    constructor
    · intro h
      contradiction
    · intro h
      exact absurd (List.map_eq_nil_iff.mp h) hnone

end Json

/-! ## Which values are read -/

/-- Only a number that is an offset is read as one. -/
theorem Offset.ofJson?_eq_some_iff {j : Json} {o : Offset} :
    Offset.ofJson? j = some o ↔ j = o.toJson := by
  constructor
  · intro h
    simp only [Offset.ofJson?, Option.bind_eq_bind, Option.bind_eq_some_iff] at h
    obtain ⟨n, hn, hlimit⟩ := h
    by_cases hle : n ≤ Offset.last
    · rw [if_pos hle, Option.some_inj] at hlimit
      subst hlimit
      cases j with
      | number m =>
        obtain ⟨negative, whole, fraction, exponent⟩ := m
        simp only [Json.nat?, Json.Numeral.nat?] at hn
        by_cases hplain : negative = false ∧ fraction = [] ∧ exponent = []
        · rw [if_pos hplain, Option.some_inj] at hn
          obtain ⟨rfl, rfl, rfl⟩ := hplain
          rw [Offset.toJson, Offset.toNat_ofNat, Nat.min_eq_left hle, Json.nat, hn]
        · rw [if_neg hplain] at hn
          contradiction
      | null | bool _ | string _ | array _ | object _ => contradiction
    · rw [if_neg hle] at hlimit
      contradiction
  · rintro rfl
    exact Offset.ofJson?_toJson o

/-- An object is read as a span exactly if its names are texts and it has one start and one end.
-/
theorem Span.ofJson?_object_iff {ms : List (List Json.Piece × Json)} {s : Span} :
    Span.ofJson? (.object ms) = some s ↔ Json.Legible ms ∧
      Json.valuesOf "start" ms = [s.start.toJson] ∧ Json.valuesOf "end" ms = [s.stop.toJson] := by
  by_cases hlegible : Json.Legible ms
  · obtain ⟨l, hl, hvalues⟩ := Json.exists_named? hlegible
    rw [← hvalues, ← hvalues, ← Json.lookup?_eq_some_some_iff, ← Json.lookup?_eq_some_some_iff]
    simp only [Span.ofJson?, hl, Option.bind_eq_bind, Option.bind_some, Option.bind_eq_some_iff,
      Offset.ofJson?_eq_some_iff]
    constructor
    · rintro ⟨_, ha, _, hb, a, rfl, o, rfl, b, rfl, o', rfl, hs⟩
      cases hs
      exact ⟨hlegible, ha, hb⟩
    · rintro ⟨-, ha, hb⟩
      exact ⟨_, ha, _, hb, _, rfl, _, rfl, _, rfl, _, rfl, rfl⟩
  · rw [Span.ofJson?, Json.named?_eq_none hlegible]
    constructor
    · intro h
      contradiction
    · intro h
      exact absurd h.1 hlegible

/-- **What is read as a span**: a sequence of start and end, or an object with both. -/
theorem Span.ofJson?_eq_some_iff {j : Json} {s : Span} :
    Span.ofJson? j = some s ↔ j = .array [s.start.toJson, s.stop.toJson] ∨
      ∃ ms, j = .object ms ∧ Json.Legible ms ∧
        Json.valuesOf "start" ms = [s.start.toJson] ∧ Json.valuesOf "end" ms = [s.stop.toJson] := by
  cases j with
  | array js =>
    constructor
    · intro h
      unfold Span.ofJson? at h
      split at h
      · next a b heq =>
        cases heq
        simp only [Option.bind_eq_bind, Option.bind_eq_some_iff, Offset.ofJson?_eq_some_iff] at h
        obtain ⟨o, rfl, o', rfl, hs⟩ := h
        cases hs
        exact .inl rfl
      · next heq => contradiction
      · contradiction
    · rintro (h | ⟨ms, h, -⟩)
      · rw [h]
        simp [Span.ofJson?, Offset.ofJson?_toJson]
      · contradiction
  | object ms => simp [Span.ofJson?_object_iff]
  | null | bool _ | number _ | string _ => simp [Span.ofJson?]

/-- An object is read as a dialect exactly if its names are texts and it tells the choice once
or not at all. -/
theorem Dialect.ofJson?_object_iff {ms : List (List Json.Piece × Json)} {d : Dialect} :
    Dialect.ofJson? (.object ms) = some d ↔ Json.Legible ms ∧
      (Json.valuesOf "distinct_fun" ms = [] ∧ d.distinctFun = false ∨
        Json.valuesOf "distinct_fun" ms = [.bool d.distinctFun]) := by
  obtain ⟨b⟩ := d
  by_cases hlegible : Json.Legible ms
  · obtain ⟨l, hl, hvalues⟩ := Json.exists_named? hlegible
    rw [← hvalues, ← Json.lookup?_eq_some_some_iff, ← Json.lookup?_eq_some_none_iff]
    simp only [Dialect.ofJson?, hl, Option.bind_eq_bind, Option.bind_some, hlegible, true_and]
    cases Json.lookup? "distinct_fun" l with
    | none => simp
    | some found =>
      cases found with
      | none => simp [eq_comm]
      | some v =>
        cases v with
        | bool b' => simp [Json.bool?]
        | null | number _ | string _ | array _ | object _ => simp [Json.bool?]
  · rw [Dialect.ofJson?, Json.named?_eq_none hlegible]
    constructor
    · intro h
      contradiction
    · intro h
      exact absurd h.1 hlegible

/-- **What is read as a dialect**: a sequence of at most one choice, or an object with at most
one. -/
theorem Dialect.ofJson?_eq_some_iff {j : Json} {d : Dialect} :
    Dialect.ofJson? j = some d ↔ j = .array [] ∧ d.distinctFun = false ∨
      j = .array [.bool d.distinctFun] ∨
      ∃ ms, j = .object ms ∧ Json.Legible ms ∧
        (Json.valuesOf "distinct_fun" ms = [] ∧ d.distinctFun = false ∨
          Json.valuesOf "distinct_fun" ms = [.bool d.distinctFun]) := by
  cases j with
  | array js =>
    obtain ⟨b⟩ := d
    rcases js with - | ⟨v, - | ⟨v', js⟩⟩
    · cases b with
      | false => simp [Dialect.ofJson?]
      | true => simp [Dialect.ofJson?]
    · cases v with
      | bool b' => simp [Dialect.ofJson?, Json.bool?]
      | null | number _ | string _ | array _ | object _ => simp [Dialect.ofJson?, Json.bool?]
    · simp [Dialect.ofJson?]
  | object ms => simp [Dialect.ofJson?_object_iff]
  | null | bool _ | number _ | string _ => simp [Dialect.ofJson?]

/-- The class whose name the items of a string spell. -/
theorem Token.Kind.ofName?_pieces_iff {ps : List Json.Piece} {k : Kind} :
    ((Json.Piece.text? ps).bind fun s => ofName? (String.ofList s)) = some k ↔
      Json.Piece.text? ps = some k.name.toList := by
  constructor
  · intro h
    obtain ⟨s, hs, hname⟩ := Option.bind_eq_some_iff.mp h
    rw [hs, name_of_ofName? hname, String.toList_ofList]
  · intro h
    rw [h, Option.bind_some, String.ofList_toList, ofName?_name]

/-- **What is read as a class**: its name, as a string or as the only name of an object without
a value. -/
theorem Token.Kind.ofJson?_eq_some_iff {j : Json} {k : Kind} :
    Token.Kind.ofJson? j = some k ↔ ∃ ps, Json.Piece.text? ps = some k.name.toList ∧
      (j = .string ps ∨ j = .object [(ps, .null)]) := by
  constructor
  · intro h
    unfold Token.Kind.ofJson? at h
    split at h
    · next ps => exact ⟨ps, ofName?_pieces_iff.mp h, .inl rfl⟩
    · next ps => exact ⟨ps, ofName?_pieces_iff.mp h, .inr rfl⟩
    · contradiction
  · rintro ⟨ps, hps, rfl | rfl⟩
    · exact ofName?_pieces_iff.mpr hps
    · exact ofName?_pieces_iff.mpr hps

namespace Json

/-! ## Order and other names -/

variable {ms extra ms' : List (List Piece × Json)} {known : List String}

/-- Members with other names in any order among them leave what is written under a known name. -/
theorem valuesOf_perm (h : (ms ++ extra).Perm ms') (hextra : ∀ m ∈ extra, IsUnknown known m.1)
    {name : String} (hname : name ∈ known) : (valuesOf name ms').Perm (valuesOf name ms) := by
  have hnone : valuesOf name extra = [] := by
    rw [valuesOf, List.map_eq_nil_iff, List.filter_eq_nil_iff]
    intro m hm hsame
    obtain ⟨text, htext, hother⟩ := hextra m hm
    rw [decide_eq_true_eq, htext, Option.some_inj] at hsame
    rw [String.toList_injective hsame] at hother
    exact hother hname
  have hall : (valuesOf name (ms ++ extra)).Perm (valuesOf name ms') := (h.filter _).map _
  have happend : valuesOf name (ms ++ extra) = valuesOf name ms ++ valuesOf name extra := by
    simp [valuesOf]
  rw [happend, hnone, List.append_nil] at hall
  exact hall.symm

/-- Members with other names, put anywhere, leave the names texts if theirs are. -/
theorem legible_iff_of_perm (h : (ms ++ extra).Perm ms')
    (hextra : ∀ m ∈ extra, IsUnknown known m.1) : Legible ms' ↔ Legible ms := by
  constructor
  · intro hall m hm
    exact hall m (h.subset (List.mem_append_left _ hm))
  · intro hall m hm
    rcases List.mem_append.mp (h.symm.subset hm) with hold | hnew
    · exact hall m hold
    · obtain ⟨text, htext, -⟩ := hextra m hnew
      rw [htext, Option.isSome_some]

theorem eq_singleton_iff_of_perm {α : Type} {l l' : List α} (h : l.Perm l') (a : α) :
    l = [a] ↔ l' = [a] := by
  rw [← List.perm_singleton, ← List.perm_singleton]
  exact h.congr_left [a]

theorem eq_nil_iff_of_perm {α : Type} {l l' : List α} (h : l.Perm l') : l = [] ↔ l' = [] := by
  rw [← List.perm_nil, ← List.perm_nil]
  exact h.congr_left []

end Json

/-- **Order and other names make no difference** to the span that an object is read as. -/
theorem Span.ofJson?_of_perm {ms extra ms' : List (List Json.Piece × Json)}
    (h : (ms ++ extra).Perm ms') (hextra : ∀ m ∈ extra, Json.IsUnknown ["start", "end"] m.1) :
    Span.ofJson? (.object ms') = Span.ofJson? (.object ms) := by
  apply Option.ext
  intro s
  have hstart : (Json.valuesOf "start" ms').Perm (Json.valuesOf "start" ms) :=
    Json.valuesOf_perm h hextra (by decide)
  have hend : (Json.valuesOf "end" ms').Perm (Json.valuesOf "end" ms) :=
    Json.valuesOf_perm h hextra (by decide)
  rw [Span.ofJson?_object_iff, Span.ofJson?_object_iff, Json.legible_iff_of_perm h hextra,
    Json.eq_singleton_iff_of_perm hstart, Json.eq_singleton_iff_of_perm hend]

/-- **Order and other names make no difference** to the dialect that an object is read as. -/
theorem Dialect.ofJson?_of_perm {ms extra ms' : List (List Json.Piece × Json)}
    (h : (ms ++ extra).Perm ms') (hextra : ∀ m ∈ extra, Json.IsUnknown ["distinct_fun"] m.1) :
    Dialect.ofJson? (.object ms') = Dialect.ofJson? (.object ms) := by
  apply Option.ext
  intro d
  have hchoice : (Json.valuesOf "distinct_fun" ms').Perm (Json.valuesOf "distinct_fun" ms) :=
    Json.valuesOf_perm h hextra (by decide)
  rw [Dialect.ofJson?_object_iff, Dialect.ofJson?_object_iff, Json.legible_iff_of_perm h hextra,
    Json.eq_nil_iff_of_perm hchoice, Json.eq_singleton_iff_of_perm hchoice]

/-! ## What is turned away -/

/-- A value that is the number of no position is no offset. -/
theorem Offset.ne_toJson {v : Json} (h : ∀ n, n ≤ Offset.last → v ≠ .nat n) (o : Offset) :
    v ≠ o.toJson :=
  h o.toNat o.toNat_le_last

/-- What turns the object of a span away: a name without a text, or under a known name no value,
several or one that is no offset. -/
theorem Span.ofJson?_eq_none {ms : List (List Json.Piece × Json)}
    (h : ¬ Json.Legible ms ∨ ∃ name ∈ ["start", "end"], Json.valuesOf name ms = [] ∨
      1 < (Json.valuesOf name ms).length ∨
      ∃ v ∈ Json.valuesOf name ms, ∀ n, n ≤ Offset.last → v ≠ .nat n) :
    Span.ofJson? (.object ms) = none := by
  rw [Option.eq_none_iff_forall_ne_some]
  intro s hs
  obtain ⟨hlegible, hstart, hend⟩ := Span.ofJson?_object_iff.mp hs
  rcases h with hillegible | ⟨name, hname, hwrong⟩
  · exact hillegible hlegible
  · -- Under either name stands one offset.
    have hone : ∃ o : Offset, Json.valuesOf name ms = [o.toJson] := by
      rcases List.mem_pair.mp hname with rfl | rfl
      · exact ⟨_, hstart⟩
      · exact ⟨_, hend⟩
    obtain ⟨o, ho⟩ := hone
    rw [ho] at hwrong
    rcases hwrong with hmissing | htwice | ⟨v, hv, hbound⟩
    · contradiction
    · exact absurd htwice (Nat.lt_irrefl 1)
    · exact Offset.ne_toJson hbound o (List.mem_singleton.mp hv)

/-- What turns the object of a dialect away: a name without a text, or its choice made twice. -/
theorem Dialect.ofJson?_eq_none {ms : List (List Json.Piece × Json)}
    (h : ¬ Json.Legible ms ∨ 1 < (Json.valuesOf "distinct_fun" ms).length) :
    Dialect.ofJson? (.object ms) = none := by
  rw [Option.eq_none_iff_forall_ne_some]
  intro d hd
  obtain ⟨hlegible, hchoice⟩ := Dialect.ofJson?_object_iff.mp hd
  rcases h with hillegible | htwice
  · exact hillegible hlegible
  · rcases hchoice with ⟨hnone, -⟩ | hone
    · rw [hnone] at htwice
      contradiction
    · rw [hone] at htwice
      exact absurd htwice (Nat.lt_irrefl 1)

end ScriptFront
