/-
Only texts of the grammar are read.

A text that is read is cut into atoms, and each atom is the characters that the grammar
gives it (`atomText_of_readAtom`), with blanks between them (`spelled_of_readAtoms`). What
the atoms make up is found from the other end: `State.Demands` says what text may still come
if a state is to lead to a value, the containers that are open being closed one after another
(`Fills`). The end of a text demands nothing but blanks, and an atom that is a step from one
state to another turns what the second demands into what the first demands
(`State.demands_of_step`). What the first state of all demands is a text of the grammar.

With the other direction, a text is read as a value exactly if it is derived for it
(`read?_eq_some_iff`), and nothing is read any more if other text than blanks is put behind it
(`read?_append_eq_none`).
-/
import Mathlib.Data.List.TakeWhile
import ScriptFront.Proofs.JsonGrammar

set_option autoImplicit false

namespace ScriptFront.Json

/-! ## Strings -/

/-- The escapes that are read are those of the table. -/
theorem mem_shortEscapes {e c : Char} (h : shortEscape? e = some c) : (e, c) ∈ shortEscapes := by
  unfold shortEscape? at h
  split at h
  all_goals
    cases h
    try decide

/-- What is read as a string is its items and a quote. -/
theorem items_of_readString {s t : List Char} {ps : List Piece}
    (h : readString s = some (ps, t)) : ∃ k, Items ps k ∧ s = k ++ '"' :: t := by
  fun_induction readString s generalizing ps t with
  | case1 => contradiction
  | case2 s =>
    cases h
    exact ⟨[], .nil, by simp⟩
  | case3 a b c d s ih =>
    simp only [Option.bind_eq_bind, Option.bind_eq_some_iff] at h
    obtain ⟨n, hn, ⟨ps', t'⟩, hread, hpure⟩ := h
    cases hpure
    obtain ⟨k, hk, rfl⟩ := ih hread
    exact ⟨['\\', 'u', a, b, c, d] ++ k, .cons (.unit hn) hk, by simp⟩
  | case4 e s hunit ih =>
    simp only [Option.bind_eq_bind, Option.bind_eq_some_iff] at h
    obtain ⟨c, hc, ⟨ps', t'⟩, hread, hpure⟩ := h
    cases hpure
    obtain ⟨k, hk, rfl⟩ := ih hread
    exact ⟨['\\', e] ++ k, .cons (.short (mem_shortEscapes hc)) hk, by simp⟩
  | case5 => contradiction
  | case6 c s hquote _ _ step hplain =>
    rename_i ih
    simp +zetaDelta only [Option.bind_eq_bind, Option.bind_eq_some_iff] at h
    obtain ⟨⟨ps', t'⟩, hread, hpure⟩ := h
    cases hpure
    obtain ⟨k, hk, rfl⟩ := ih hread
    rw [Bool.or_eq_true, decide_eq_true_eq, beq_iff_eq, not_or] at hplain
    exact ⟨[c] ++ k, .cons (.plain (Char.not_lt.mp hplain.1) hquote hplain.2) hk, by simp⟩

/-! ## Numerals -/

/-- The digits at the head of a text, and that the text goes on without one. -/
theorem digits_takeWhile {s : List Char} (h : (s.takeWhile Char.isDigit).isEmpty = false) :
    Digits (s.takeWhile Char.isDigit) := by
  constructor
  · intro hnil
    rw [hnil] at h
    contradiction
  · intro c hc
    exact List.mem_takeWhile_imp hc

/-- What is read as a fraction is one, and the rest is what follows it. -/
theorem fraction_of_readFraction {s f t : List Char} (h : readFraction s = some (f, t)) :
    IsFraction f ∧ s = f ++ t := by
  unfold readFraction at h
  split at h
  · next s =>
    by_cases hempty : (s.takeWhile Char.isDigit).isEmpty = true
    · simp [hempty] at h
    · simp only [hempty] at h
      cases h
      refine ⟨.inr ⟨_, rfl, digits_takeWhile (Bool.not_eq_true _ ▸ hempty)⟩, ?_⟩
      simp
  · cases h
    exact ⟨.inl rfl, by simp⟩

/-- The digits of an exponent, after its letter and sign. -/
theorem exponent_of_digits {e : Char} {sign s x t : List Char} (he : e = 'e' ∨ e = 'E')
    (hsign : sign = [] ∨ sign = ['+'] ∨ sign = ['-'])
    (h : (if (s.takeWhile Char.isDigit).isEmpty = true then none
      else some (e :: sign ++ s.takeWhile Char.isDigit, s.dropWhile Char.isDigit)) = some (x, t)) :
    IsExponent x ∧ e :: (sign ++ s) = x ++ t := by
  by_cases hempty : (s.takeWhile Char.isDigit).isEmpty = true
  · simp [hempty] at h
  · rw [if_neg hempty] at h
    cases h
    have hdigits := digits_takeWhile (Bool.not_eq_true _ ▸ hempty)
    refine ⟨.inr ⟨e, sign, _, rfl, he, hsign, hdigits⟩, ?_⟩
    simp

/-- What is read as an exponent is one, and the rest is what follows it. -/
theorem exponent_of_readExponent {s x t : List Char} (h : readExponent s = some (x, t)) :
    IsExponent x ∧ s = x ++ t := by
  unfold readExponent at h
  split at h
  · next e s =>
    by_cases hletter : (e == 'e' || e == 'E') = true
    · rw [if_pos hletter] at h
      rw [Bool.or_eq_true, beq_iff_eq, beq_iff_eq] at hletter
      split at h
      next sign digits hsplit =>
      have hsign : (sign = [] ∨ sign = ['+'] ∨ sign = ['-']) ∧ s = sign ++ digits := by
        split at hsplit
        all_goals
          cases hsplit
          simp
      rw [hsign.2]
      exact exponent_of_digits hletter hsign.1 h
    · rw [if_neg hletter] at h
      cases h
      exact ⟨.inl rfl, by simp⟩
  · cases h
    exact ⟨.inl rfl, by simp⟩

/-- What is read as a numeral is one, from its first digit on. -/
theorem numeral_of_readNumeral {negative : Bool} {s t : List Char} {n : Numeral}
    (h : readNumeral negative s = some (n, t)) :
    ∃ x, NumeralText n ((if negative then ['-'] else []) ++ x) ∧ s = x ++ t := by
  unfold readNumeral at h
  by_cases hfront : ((s.takeWhile Char.isDigit).isEmpty ||
      ((s.takeWhile Char.isDigit).head? == some '0' &&
        (s.takeWhile Char.isDigit).length != 1)) = true
  · simp only [hfront, if_true, Option.bind_eq_bind, Option.bind_none] at h
    contradiction
  · simp only [if_neg hfront, Option.bind_eq_bind, Option.bind_eq_some_iff] at h
    obtain ⟨⟨fraction, s'⟩, hfraction, ⟨exponent, t'⟩, hexponent, hpure⟩ := h
    cases hpure
    obtain ⟨hisFraction, hs⟩ := fraction_of_readFraction hfraction
    obtain ⟨hisExponent, hs'⟩ := exponent_of_readExponent hexponent
    rw [Bool.or_eq_true, not_or, Bool.and_eq_true, beq_iff_eq, bne_iff_ne, Bool.not_eq_true] at hfront
    have hdigits := digits_takeWhile hfront.1
    have hwhole : IsWhole (s.takeWhile Char.isDigit) := by
      refine ⟨hdigits, ?_⟩
      intro hzero
      -- One digit alone, and this one is the zero.
      have hone : (s.takeWhile Char.isDigit).length = 1 := by
        by_contra hmore
        exact hfront.2 ⟨hzero, hmore⟩
      obtain ⟨d, hd⟩ := List.length_eq_one_iff.mp hone
      rw [hd, List.head?_cons, Option.some_inj] at hzero
      rw [hd, hzero]
    refine ⟨_, .mk negative hwhole hisFraction hisExponent, ?_⟩
    rw [List.append_assoc, List.append_assoc, ← hs', ← hs, List.takeWhile_append_dropWhile]

/-! ## Atoms -/

/-- The characters that an atom may be. -/
inductive AtomText : Atom → List Char → Prop where
  | openArray : AtomText .openArray ['[']
  | closeArray : AtomText .closeArray [']']
  | openObject : AtomText .openObject ['\x7b']
  | closeObject : AtomText .closeObject ['\x7d']
  | comma : AtomText .comma [',']
  | colon : AtomText .colon [':']
  | wordNull : AtomText .null ['n', 'u', 'l', 'l']
  | wordTrue : AtomText (.bool true) ['t', 'r', 'u', 'e']
  | wordFalse : AtomText (.bool false) ['f', 'a', 'l', 's', 'e']
  | number {n : Numeral} {x : List Char} : NumeralText n x → AtomText (.number n) x
  | string {ps : List Piece} {k : List Char} :
      Items ps k → AtomText (.string ps) ('"' :: (k ++ ['"']))

/-- An atom that is read is the characters that the grammar gives it. -/
theorem atomText_of_readAtom {s t : List Char} {a : Atom} (h : readAtom s = some (a, t)) :
    ∃ x, AtomText a x ∧ s = x ++ t := by
  unfold readAtom at h
  split at h
  case h_10 s =>
    simp only [Option.bind_eq_bind, Option.bind_eq_some_iff] at h
    obtain ⟨⟨ps, t'⟩, hread, hpure⟩ := h
    cases hpure
    obtain ⟨k, hk, rfl⟩ := items_of_readString hread
    exact ⟨_, .string hk, by simp⟩
  case h_11 s =>
    simp only [Option.bind_eq_bind, Option.bind_eq_some_iff] at h
    obtain ⟨⟨n, t'⟩, hread, hpure⟩ := h
    cases hpure
    obtain ⟨x, hx, rfl⟩ := numeral_of_readNumeral hread
    exact ⟨_, .number hx, by simp⟩
  case h_12 =>
    simp only [Option.bind_eq_bind, Option.bind_eq_some_iff] at h
    obtain ⟨⟨n, t'⟩, hread, hpure⟩ := h
    cases hpure
    obtain ⟨x, hx, rfl⟩ := numeral_of_readNumeral hread
    exact ⟨_, .number hx, by simp⟩
  all_goals
    cases h
    exact ⟨_, by constructor, rfl⟩

/-- The text is the atoms in their order, with blanks around them. -/
inductive Spelled : List Atom → List Char → Prop where
  | nil {w : List Char} : Blanks w → Spelled [] w
  | cons {a : Atom} {as : List Atom} {w x t : List Char} :
      Blanks w → AtomText a x → Spelled as t → Spelled (a :: as) (w ++ (x ++ t))

theorem blanks_takeWhile (s : List Char) : Blanks (s.takeWhile isSpace) := by
  intro c hc
  exact isSpace_iff.mp (List.mem_takeWhile_imp hc)

/-- The atoms that are read spell the text they were read from. -/
theorem spelled_of_readAtoms {fuel : Nat} {s : List Char} {as : List Atom}
    (h : readAtoms fuel s = some as) : Spelled as s := by
  have hfront : s = s.takeWhile isSpace ++ s.dropWhile isSpace :=
    List.takeWhile_append_dropWhile.symm
  induction fuel generalizing s as with
  | zero =>
    rw [readAtoms] at h
    split at h
    · next hempty =>
      cases h
      rw [hfront, hempty, List.append_nil]
      exact .nil (blanks_takeWhile s)
    · contradiction
  | succ fuel ih =>
    rw [readAtoms] at h
    split at h
    · next hempty =>
      cases h
      rw [hfront, hempty, List.append_nil]
      exact .nil (blanks_takeWhile s)
    · simp only [Option.bind_eq_bind, Option.bind_eq_some_iff] at h
      obtain ⟨⟨a, t⟩, hatom, as', hrest, hpure⟩ := h
      cases hpure
      obtain ⟨x, hx, hdrop⟩ := atomText_of_readAtom hatom
      rw [hfront, hdrop]
      exact .cons (blanks_takeWhile s) hx (ih hrest List.takeWhile_append_dropWhile.symm)

/-! ## What a state demands -/

/-- What may follow an item of a container up to its closing bracket: blanks, or a comma and
the items that are left. -/
inductive Tail {α : Type} (many : List α → Phrase) : List α → List Char → Prop where
  | none {w : List Char} : Blanks w → Tail many [] w
  | more {as : List α} {w t : List Char} :
      Blanks w → Derives (many as) t → Tail many as (w ++ ',' :: t)

/-- One more item before the rest of an array. -/
theorem Tail.items {js : List Json} {j : Json} {w s t : List Char} (h : Tail .items js t)
    (hw : Blanks w) (hs : Derives (.value j) s) : Derives (.items (j :: js)) (w ++ (s ++ t)) := by
  cases h with
  | none hw' => exact .item (.element hw hs hw')
  | @more _ w' t hw' ht =>
    have helement : Derives (.element j) (w ++ (s ++ w')) := .element hw hs hw'
    simpa using Derives.itemThen helement ht

/-- One more member before the rest of an object. -/
theorem Tail.members {ms : List (List Piece × Json)} {key : List Piece} {j : Json}
    {w k w' w'' s t : List Char} (h : Tail .members ms t) (hw : Blanks w) (hk : Items key k)
    (hw' : Blanks w') (hw'' : Blanks w'') (hs : Derives (.value j) s) :
    Derives (.members ((key, j) :: ms))
      (w ++ ('"' :: (k ++ ['"']) ++ (w' ++ ':' :: (w'' ++ (s ++ t))))) := by
  cases h with
  | none hend => exact .lastMember (.member hw hk hw' (.element hw'' hs hend))
  | @more _ wend t hend ht =>
    have helement : Derives (.element j) (w'' ++ (s ++ wend)) := .element hw'' hs hend
    simpa using Derives.memberThen (.member hw hk hw' helement) ht

/-- What text may follow a value in the open containers, if the whole is to be `j`. -/
inductive Fills (j : Json) : List Frame → Json → List Char → Prop where
  | outermost {w : List Char} : Blanks w → Fills j [] j w
  | array {items js : List Json} {stack : List Frame} {v : Json} {s t : List Char} :
      Tail .items js s → Fills j stack (.array ((v :: items).reverse ++ js)) t →
        Fills j (.array items :: stack) v (s ++ ']' :: t)
  | object {members ms : List (List Piece × Json)} {key : List Piece} {stack : List Frame}
      {v : Json} {s t : List Char} :
      Tail .members ms s → Fills j stack (.object (((key, v) :: members).reverse ++ ms)) t →
        Fills j (.object members key :: stack) v (s ++ '\x7d' :: t)

namespace State

/-- What text may still come in a state, if the whole is to be `j`. -/
inductive Demands (j : Json) : State → List Char → Prop where
  | value {closable : Bool} {stack : List Frame} {v : Json} {w s t : List Char} :
      Blanks w → Derives (.value v) s → Fills j stack v t →
        Demands j (value closable stack) (w ++ (s ++ t))
  | noItem {stack : List Frame} {w t : List Char} :
      Blanks w → Fills j stack (.array []) t →
        Demands j (value true (.array [] :: stack)) (w ++ ']' :: t)
  | name {closable : Bool} {members ms : List (List Piece × Json)} {stack : List Frame}
      {s t : List Char} :
      Derives (.members ms) s → Fills j stack (.object (members.reverse ++ ms)) t →
        Demands j (name closable members stack) (s ++ '\x7d' :: t)
  | noMember {stack : List Frame} {w t : List Char} :
      Blanks w → Fills j stack (.object []) t → Demands j (name true [] stack) (w ++ '\x7d' :: t)
  | colon {members : List (List Piece × Json)} {key : List Piece} {stack : List Frame} {v : Json}
      {w w' s t : List Char} :
      Blanks w → Blanks w' → Derives (.value v) s → Fills j (.object members key :: stack) v t →
        Demands j (colon members key stack) (w ++ ':' :: (w' ++ (s ++ t)))
  | afterItem {items js : List Json} {stack : List Frame} {s t : List Char} :
      Tail .items js s → Fills j stack (.array (items.reverse ++ js)) t →
        Demands j (afterItem items stack) (s ++ ']' :: t)
  | afterMember {members ms : List (List Piece × Json)} {stack : List Frame} {s t : List Char} :
      Tail .members ms s → Fills j stack (.object (members.reverse ++ ms)) t →
        Demands j (afterMember members stack) (s ++ '\x7d' :: t)
  | complete {w : List Char} : Blanks w → Demands j (complete j) w

variable {j : Json}

/-- After a value the innermost open container has its demands. -/
theorem Demands.fills {v : Json} {stack : List Frame} {t : List Char}
    (h : (deliver v stack).Demands j t) : Fills j stack v t := by
  cases stack with
  | nil =>
    cases h with
    | complete hw => exact .outermost hw
  | cons frame stack =>
    cases frame with
    | array items =>
      cases h with
      | afterItem htail hfills => exact .array htail hfills
    | object members key =>
      cases h with
      | afterMember htail hfills => exact .object htail hfills

/-! Each kind of atom turns demands into demands. -/

variable {closable : Bool} {stack : List Frame} {w x t : List Char}

/-- A value where one is demanded is handed to what stands around it. -/
theorem Demands.of_deliver {v : Json} (h : (deliver v stack).Demands j t) (hw : Blanks w)
    (hx : Derives (.value v) x) : (State.value closable stack).Demands j (w ++ (x ++ t)) :=
  .value hw hx h.fills

/-- An opening bracket where a value is demanded begins an array without items yet. -/
theorem Demands.openArray (h : (State.value true (.array [] :: stack)).Demands j t) (hw : Blanks w) :
    (State.value closable stack).Demands j (w ++ '[' :: t) := by
  cases h with
  | @value _ _ v w' s t hw' hs hfills =>
    cases hfills with
    | @array _ js _ _ u t htail hfills =>
      have harray := Derives.array (htail.items hw' hs)
      have hvalue : Demands j (State.value closable stack) _ := .value hw harray hfills
      simpa using hvalue
  | noItem hw' hfills =>
    have harray := Derives.emptyArray hw'
    have hvalue : Demands j (State.value closable stack) _ := .value hw harray hfills
    simpa using hvalue

/-- An opening brace where a value is demanded begins an object without members yet. -/
theorem Demands.openObject (h : (State.name true [] stack).Demands j t) (hw : Blanks w) :
    (State.value closable stack).Demands j (w ++ '\x7b' :: t) := by
  cases h with
  | name hs hfills =>
    have hobject := Derives.object hs
    have hvalue : Demands j (State.value closable stack) _ := .value hw hobject hfills
    simpa using hvalue
  | noMember hw' hfills =>
    have hobject := Derives.emptyObject hw'
    have hvalue : Demands j (State.value closable stack) _ := .value hw hobject hfills
    simpa using hvalue

/-- A comma after an item demands another item: the array cannot be closed there. -/
theorem Demands.nextItem {items : List Json}
    (h : (State.value false (.array items :: stack)).Demands j t) (hw : Blanks w) :
    (State.afterItem items stack).Demands j (w ++ ',' :: t) := by
  cases h with
  | value hw' hs hfills =>
    cases hfills with
    | array htail hfills =>
      rw [List.reverse_cons, List.append_assoc] at hfills
      simpa using Demands.afterItem (.more hw (htail.items hw' hs)) hfills

/-- A comma after a member demands another name: the object cannot be closed there. -/
theorem Demands.nextMember {members : List (List Piece × Json)}
    (h : (State.name false members stack).Demands j t) (hw : Blanks w) :
    (State.afterMember members stack).Demands j (w ++ ',' :: t) := by
  cases h with
  | name hs hfills => simpa using Demands.afterMember (.more hw hs) hfills

/-- A name is followed by its colon. -/
theorem Demands.key {members : List (List Piece × Json)} {key : List Piece} {k : List Char}
    (h : (State.colon members key stack).Demands j t) (hw : Blanks w) (hk : Items key k) :
    (State.name closable members stack).Demands j (w ++ ('"' :: (k ++ ['"']) ++ t)) := by
  cases h with
  | colon hw' hw'' hs hfills =>
    cases hfills with
    | object htail hfills =>
      rw [List.reverse_cons, List.append_assoc] at hfills
      have hmembers := htail.members hw hk hw' hw'' hs
      have hname : Demands j (State.name closable members stack) _ := .name hmembers hfills
      simpa using hname

/-- A colon is followed by the value of the member. -/
theorem Demands.named {members : List (List Piece × Json)} {key : List Piece}
    (h : (State.value false (.object members key :: stack)).Demands j t) (hw : Blanks w) :
    (State.colon members key stack).Demands j (w ++ ':' :: t) := by
  cases h with
  | value hw' hs hfills => exact .colon hw hw' hs hfills

/-- **An atom turns demands into demands**: if it is a step from one state to another, what the
second demands comes after the atom in what the first demands. -/
theorem demands_of_step {st st' : State} {a : Atom} (hstep : st.step a = some st')
    (hw : Blanks w) (hx : AtomText a x) (h : st'.Demands j t) : st.Demands j (w ++ (x ++ t)) := by
  unfold step at hstep
  split at hstep
  case h_15 => contradiction
  all_goals
    cases hstep
    cases hx
  case h_1.refl.wordNull => exact h.of_deliver hw .wordNull
  case h_2.refl.wordTrue => exact h.of_deliver hw .wordTrue
  case h_2.refl.wordFalse => exact h.of_deliver hw .wordFalse
  case h_3.refl.number hn => exact h.of_deliver hw (.number hn)
  case h_4.refl.string hk => exact h.of_deliver hw (.string hk)
  case h_5.refl.openArray => exact h.openArray hw
  case h_6.refl.openObject => exact h.openObject hw
  case h_7.refl.closeArray => exact .noItem hw h.fills
  case h_8.refl.comma => exact h.nextItem hw
  case h_9.refl.closeArray => exact .afterItem (.none hw) (by simpa using h.fills)
  case h_10.refl.string hk => exact h.key hw hk
  case h_11.refl.closeObject => exact .noMember hw h.fills
  case h_12.refl.colon => exact h.named hw
  case h_13.refl.comma => exact h.nextMember hw
  case h_14.refl.closeObject => exact .afterMember (.none hw) (by simpa using h.fills)

/-- A run that comes to a value meets all demands on the way. The induction is on the atoms. -/
theorem demands_of_run {st : State} {as : List Atom} {s : List Char} (h : Spelled as s)
    (hrun : st.run as = some j) : st.Demands j s := by
  induction h generalizing st with
  | nil hw =>
    cases st with
    | complete v =>
      cases hrun
      exact .complete hw
    | value _ _ | name _ _ _ | colon _ _ _ | afterItem _ _ | afterMember _ _ => contradiction
  | @cons a as w x t hw hx _ ih =>
    have hsteps : (do (← st.step a).run as) = some j := by
      cases st
      all_goals exact hrun
    simp only [Option.bind_eq_bind, Option.bind_eq_some_iff] at hsteps
    obtain ⟨st', hstep, hrest⟩ := hsteps
    exact demands_of_step hstep hw hx (ih hrest)

end State

/-! ## Whole texts -/

/-- **Only texts of the grammar are read**, each as the value it is derived for. -/
theorem derives_of_read? {j : Json} {s : List Char} (h : read? s = some j) :
    Derives (.element j) s := by
  simp only [read?, Option.bind_eq_bind, Option.bind_eq_some_iff] at h
  obtain ⟨as, hatoms, hrun⟩ := h
  cases State.demands_of_run (spelled_of_readAtoms hatoms) hrun with
  | value hw hs hfills =>
    cases hfills with
    | outermost hw' => exact .element hw hs hw'

/-- **A text is read as a value exactly if the grammar derives it for the value.** -/
theorem read?_eq_some_iff {j : Json} {s : List Char} :
    read? s = some j ↔ Derives (.element j) s :=
  ⟨derives_of_read?, Derives.read?_eq⟩

/-- **Nothing but blanks comes after a value.** A numeral is left out: more digits would make
another of it. -/
theorem read?_append_eq_none {j : Json} {s t : List Char} (h : Derives (.element j) s)
    (hj : ∀ n, j ≠ .number n) (ht : ¬ Blanks t) : read? (s ++ t) = none := by
  by_contra hsome
  obtain ⟨j', hread⟩ := Option.ne_none_iff_exists'.mp hsome
  obtain ⟨n, hn, hpasses⟩ := h.passes_of_not_number hj t
  obtain ⟨fuel, hfuel⟩ := Nat.exists_eq_add_of_le hn
  have hrun := hpasses (fuel + t.length)
  rw [← Nat.add_assoc, ← hfuel, ← List.length_append] at hrun
  -- The reader is at its end where `t` begins, so no atom may be left.
  have hend : (readAtoms (fuel + t.length) t).bind (State.complete j).run = some j' :=
    hrun.symm.trans hread
  obtain ⟨as, hatoms, hdone⟩ := Option.bind_eq_some_iff.mp hend
  cases as with
  | nil =>
    cases spelled_of_readAtoms hatoms with
    | nil hblanks => exact ht hblanks
  | cons a as => contradiction

end ScriptFront.Json
