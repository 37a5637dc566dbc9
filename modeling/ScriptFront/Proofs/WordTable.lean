/-
Telling keywords apart letter by letter is looking them up in a table.

`reservedWords` lists the reserved words with the names of their classes, and
`wordKind_eq_lookup` says that a word has the class that stands in the list, or is a name
if it does not stand there. The list is looked through word by word, so nothing in it
depends on how words begin.

The second half is about positions. `Dialect.keyword?` takes the letters off a word one by
one; `readKeyword` takes the same word out of the source between two positions, looks at
one or two letters, and compares the slice from there to the end. A slice between positions
that are not in the text fails, and `readKeyword_eq` says that none ever does: a branch that
leaves out letters has seen that many.
-/
import ScriptFront.Buffer.Basic
import ScriptFront.Place
import ScriptFront.Proofs.TokenClass

set_option autoImplicit false

namespace ScriptFront

open Token (Keyword Kind IsWord IsNamePart)

namespace Dialect

/-! ## The table -/

/-- The reserved words, each with the name of its class. -/
def reservedWords (d : Dialect) : List (String × String) :=
  [("and", "AND"), ("class", "CLASS"), ("else", "ELSE"), ("false", "FALSE"), ("for", "FOR"),
    ("fun", if d.distinctFun then "FUN" else "FOR"), ("if", "IF"), ("nil", "NIL"), ("or", "OR"),
    ("print", "PRINT"), ("return", "RETURN"), ("super", "SUPER"), ("this", "THIS"),
    ("true", "TRUE"), ("var", "VAR"), ("while", "WHILE")]

/-- A word that is reserved for a keyword stands in the table with the keyword's name. -/
theorem lookup_of_reserves {d : Dialect} {w : List Char} {k : Keyword} (h : d.Reserves w k) :
    d.reservedWords.lookup (String.ofList w) = some k.name := by
  obtain ⟨distinct⟩ := d
  rw [Reserves] at h
  by_cases hfun : w = "fun".toList
  · rw [if_pos hfun] at h
    subst hfun h
    cases distinct <;> rfl
  · rw [if_neg hfun] at h
    subst h
    cases k with
    | function => exact absurd rfl hfun
    | _ => rfl

/-- A word that stands in the table is reserved. -/
theorem exists_reserves_of_lookup {d : Dialect} {w : List Char} {name : String}
    (h : d.reservedWords.lookup (String.ofList w) = some name) : ∃ k, d.Reserves w k := by
  have hall : (d.reservedWords.all fun entry => (d.keyword? entry.1.toList).isSome) = true := by
    obtain ⟨distinct⟩ := d
    cases distinct <;> decide
  obtain ⟨before, after, htable, -⟩ := List.lookup_eq_some_iff.mp h
  have hmem : (String.ofList w, name) ∈ d.reservedWords := by
    rw [htable]
    exact List.mem_append_right _ List.mem_cons_self
  have hfound := List.all_eq_true.mp hall _ hmem
  rw [String.toList_ofList] at hfound
  obtain ⟨k, hk⟩ := Option.isSome_iff_exists.mp hfound
  exact ⟨k, keyword?_eq_some_iff.mp hk⟩

/-- **The class of a word is the one in the table.** -/
theorem wordKind_eq_lookup (d : Dialect) (w : List Char) :
    (d.wordKind w).name = (d.reservedWords.lookup (String.ofList w)).getD "IDENTIFIER" := by
  by_cases hreserved : ∃ k, d.Reserves w k
  · obtain ⟨k, hk⟩ := hreserved
    rw [wordKind_eq_keyword hk, lookup_of_reserves hk]
    rfl
  · have hnone : d.reservedWords.lookup (String.ofList w) = none := by
      rw [Option.eq_none_iff_forall_ne_some]
      intro name hname
      exact hreserved (exists_reserves_of_lookup hname)
    rw [wordKind_eq_identifier (not_exists.mp hreserved), hnone]
    rfl

end Dialect

/-! ## By positions -/

namespace Text

/-- The text between two positions, or the failed access. -/
def slice (s : List Char) (start stop : Nat) : Except OutOfBounds (List Char) :=
  if start ≤ stop ∧ stop ≤ s.length then .ok ((s.take stop).drop start)
  else .error { size := s.length, index := stop }

theorem slice_append (before w after : List Char) :
    slice (before ++ w ++ after) before.length (before.length + w.length) = .ok w := by
  have hlength : before.length + w.length = (before ++ w).length := List.length_append.symm
  have hinside : before.length ≤ before.length + w.length ∧
      before.length + w.length ≤ (before ++ w ++ after).length := by
    simp only [List.length_append]
    omega
  rw [slice, if_pos hinside, hlength, List.take_left, List.drop_left]

/-- A slice to the end of a word is what is left of it. -/
theorem slice_tail {w : List Char} {start : Nat} (h : start ≤ w.length) :
    slice w start w.length = .ok (w.drop start) := by
  rw [slice, if_pos ⟨h, Nat.le_refl _⟩, List.take_length]

end Text

namespace Dialect

/-- What is left to compare once the first letters of a word are known. -/
structure Branch where
  -- The position behind these letters.
  start : Nat
  tail : String
  keyword : Keyword

/-- The comparison that the first letters of a word ask for: one letter, and after `f` and
`t` the second one too. -/
def branch? (d : Dialect) : List Char → Option Branch
  | 'a' :: _ => some ⟨1, "nd", .conjunction⟩
  | 'c' :: _ => some ⟨1, "lass", .classDecl⟩
  | 'e' :: _ => some ⟨1, "lse", .elseBranch⟩
  | 'f' :: second :: _ =>
    match second with
    | 'a' => some ⟨2, "lse", .falseLiteral⟩
    | 'o' => some ⟨2, "r", .forLoop⟩
    | 'u' => some ⟨2, "n", d.funKeyword⟩
    | _ => none
  | 'i' :: _ => some ⟨1, "f", .ifBranch⟩
  | 'n' :: _ => some ⟨1, "il", .nilLiteral⟩
  | 'o' :: _ => some ⟨1, "r", .disjunction⟩
  | 'p' :: _ => some ⟨1, "rint", .printStatement⟩
  | 'r' :: _ => some ⟨1, "eturn", .returnStatement⟩
  | 's' :: _ => some ⟨1, "uper", .superReference⟩
  | 't' :: second :: _ =>
    match second with
    | 'h' => some ⟨2, "is", .thisReference⟩
    | 'r' => some ⟨2, "ue", .trueLiteral⟩
    | _ => none
  | 'v' :: _ => some ⟨1, "ar", .varDecl⟩
  | 'w' :: _ => some ⟨1, "hile", .whileLoop⟩
  | _ => none

/-- Compares the letters that are left over, if there are as many as in the ending. -/
def Branch.check (b : Branch) (word : List Char) : Except OutOfBounds (Option Keyword) :=
  if word.length = b.start + b.tail.length then
    (Text.slice word b.start word.length).map fun rest => ending rest b.tail b.keyword
  else .ok none

/-- The keyword between two positions of the source, if the word there is reserved. -/
def readKeyword (d : Dialect) (source : List Char) (start stop : Nat) :
    Except OutOfBounds (Option Keyword) :=
  (Text.slice source start stop).bind fun word =>
    match d.branch? word with
    | some b => (Text.slice source start stop).bind b.check
    | none => .ok none

/-- A branch leaves out no more letters than it has seen. The cases are the branches; each
shows the letters in front. -/
theorem start_le_of_branch? {d : Dialect} {w : List Char} :
    ∀ b ∈ d.branch? w, b.start ≤ w.length := by
  fun_cases branch? d w
  all_goals
    intro b hb
    first
      | contradiction
      | obtain rfl := Option.some.inj hb
        simp only [List.length_cons]
        omega

/-- Branch by branch, the letters left over are those that taking letters off leaves. Where
there is no branch, the word begins like no keyword. -/
theorem keyword?_eq_branch (d : Dialect) (w : List Char) :
    d.keyword? w = (d.branch? w).bind fun b => ending (w.drop b.start) b.tail b.keyword := by
  fun_cases branch? d w
  all_goals first
    | rfl
    | simp_all [keyword?]

/-- Looking at the length makes no difference: letters that agree are as many. -/
theorem check_eq {b : Branch} {w : List Char} (h : b.start ≤ w.length) :
    b.check w = .ok (ending (w.drop b.start) b.tail b.keyword) := by
  rw [Branch.check, Text.slice_tail h]
  by_cases hlength : w.length = b.start + b.tail.length
  · rw [if_pos hlength]
    rfl
  · have hother : w.drop b.start ≠ b.tail.toList := by
      intro hrest
      have hcount := congrArg List.length hrest
      rw [List.length_drop, String.length_toList] at hcount
      omega
    rw [if_neg hlength, ending, if_neg hother]

/-- **Reading a word by positions never leaves the text**, and finds the same keyword. -/
theorem readKeyword_eq (d : Dialect) (before w after : List Char) :
    d.readKeyword (before ++ w ++ after) before.length (before.length + w.length) =
      .ok (d.keyword? w) := by
  rw [readKeyword, Text.slice_append, keyword?_eq_branch]
  dsimp only [Except.bind]
  cases hbranch : d.branch? w with
  | none => rfl
  | some b => exact check_eq (start_le_of_branch? b hbranch)

end Dialect

/-! ## Words -/

/-- A character of a name is one byte, so bytes and characters of a word are counted alike. -/
theorem Token.IsNamePart.utf8Size_eq {c : Char} (h : IsNamePart c) : c.utf8Size = 1 := by
  rw [Char.utf8Size_eq_one_iff, UInt32.le_iff_toNat_le]
  simp only [IsNamePart, Token.IsNameStart, Token.IsDecimal, Char.le_def, UInt32.le_iff_toNat_le,
    Char.ext_iff, ← UInt32.toNat_inj, Char.reduceVal, UInt32.reduceToNat] at h ⊢
  omega

/-- Positions in a word count its bytes. -/
theorem Token.IsWord.byteLength_take {w : List Char} (h : IsWord w) {n : Nat} (hn : n ≤ w.length) :
    byteLength (w.take n) = n := by
  have hall : ∀ s : List Char, (∀ c ∈ s, IsNamePart c) → byteLength s = s.length := by
    intro s hs
    induction s with
    | nil => rfl
    | cons c s ih =>
      obtain ⟨hc, hs⟩ := List.forall_mem_cons.mp hs
      rw [byteLength_cons, hc.utf8Size_eq, ih hs, List.length_cons, Nat.add_comm]
  rw [hall _ fun c hc => h.forall_mem c (List.mem_of_mem_take hc), List.length_take_of_le hn]

/-- **A word has the class of the table.** It is a keyword if it is one of the reserved
words, letter by letter, and a name if it is any other word, however long. The letters are
looked at by position, and no position is outside the word. -/
theorem Dialect.wordKind_eq_table (d : Dialect) {w : List Char} (hw : IsWord w) :
    (d.wordKind w).name = (d.reservedWords.lookup (String.ofList w)).getD "IDENTIFIER" ∧
      (∀ n ≤ w.length, byteLength (w.take n) = n) ∧
      ∀ before after,
        d.readKeyword (before ++ w ++ after) before.length (before.length + w.length) =
          .ok (d.keyword? w) :=
  ⟨d.wordKind_eq_lookup w, fun _ hn => hw.byteLength_take hn,
    fun before after => d.readKeyword_eq before w after⟩

/-- The word `fun` between brackets, where it is told apart from `for`, and a name that goes
on behind it. -/
theorem Dialect.wordKind_eq_table_fun :
    IsWord "fun".toList ∧ IsWord "funk".toList ∧
      (wordKind { distinctFun := true } "fun".toList).name = "FUN" ∧
      (wordKind { distinctFun := true } "funk".toList).name = "IDENTIFIER" ∧
      readKeyword { distinctFun := true } "(fun)".toList 1 4 = .ok (some .function) := by
  have hfun : IsWord "fun".toList := Token.isWord_cons_iff.mpr ⟨rfl, rfl⟩
  have hfunk : IsWord "funk".toList := Token.isWord_cons_iff.mpr ⟨rfl, rfl⟩
  obtain ⟨hclass, -, hread⟩ := wordKind_eq_table { distinctFun := true } hfun
  have hname := (wordKind_eq_table { distinctFun := true } hfunk).1
  exact ⟨hfun, hfunk, hclass, hname, hread ['('] [')']⟩

end ScriptFront
