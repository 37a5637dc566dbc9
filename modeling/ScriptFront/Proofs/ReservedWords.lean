/-
The reserved words as a table.

`Dialect.keyword?` branches on the first letters of a word and compares what is
left of it. Here the same words stand as a relation between a text and the
keyword it is reserved for, and `Dialect.keyword?_eq_some_iff` says that the
branching reader finds exactly what the relation holds of: no word is missed,
and no word that only begins like a reserved one is taken for it.

The word `fun` is the one place where the dialect matters, so it has a branch
of its own in the relation; every other word is reserved for the keyword it is
the word of.
-/
import ScriptFront.Token.Dialect

set_option autoImplicit false

namespace ScriptFront.Dialect

open Token (Keyword)

/-- The text `w` is reserved for the keyword `k`: as the word of `k`, except
that `fun` is the counting loop unless the dialect tells the two apart. -/
def Reserves (d : Dialect) (w : List Char) (k : Keyword) : Prop :=
  if w = "fun".toList then k = if d.distinctFun then .function else .forLoop
  else w = k.word.toList

/-- The rest of a word is compared in full. -/
theorem ending_eq_some_iff {rest : List Char} {tail : String} {k k' : Keyword} :
    ending rest tail k = some k' ↔ rest = tail.toList ∧ k = k' := by
  rw [ending]
  by_cases h : rest = tail.toList
  · rw [if_pos h, Option.some_inj]
    exact ⟨fun hk => ⟨h, hk⟩, fun hk => hk.2⟩
  · rw [if_neg h]
    constructor
    · intro hk
      contradiction
    · intro hk
      exact absurd hk.1 h

/-- A word that the reader finds is reserved for what it finds. The cases are
the branches of the reader; in each the ending settles the whole word. -/
theorem reserves_of_keyword? {d : Dialect} {w : List Char} {k : Keyword}
    (h : d.keyword? w = some k) : d.Reserves w k := by
  unfold keyword? at h
  split at h
  all_goals first
    | contradiction
    | obtain ⟨rfl, rfl⟩ := ending_eq_some_iff.mp h
  -- the first alternative is every word but `fun`
  all_goals first
    | exact (if_neg (by decide)).mpr rfl
    | exact (if_pos rfl).mpr rfl

/-- A reserved word is found. The cases are the keywords, since each has one
word; `fun` comes first because it is no keyword's word in every dialect. -/
theorem keyword?_of_reserves {d : Dialect} {w : List Char} {k : Keyword}
    (h : d.Reserves w k) : d.keyword? w = some k := by
  rw [Reserves] at h
  by_cases hfun : w = "fun".toList
  · rw [if_pos hfun] at h
    subst hfun h
    rfl
  · rw [if_neg hfun] at h
    subst h
    cases k with
    | function => exact absurd rfl hfun
    | _ => rfl

/-- **The reader finds a keyword exactly if the word is reserved for it.** -/
theorem keyword?_eq_some_iff {d : Dialect} {w : List Char} {k : Keyword} :
    d.keyword? w = some k ↔ d.Reserves w k :=
  ⟨reserves_of_keyword?, keyword?_of_reserves⟩

/-- A word that is reserved for no keyword is an identifier. -/
theorem wordKind_eq_identifier {d : Dialect} {w : List Char} (h : ∀ k, ¬ d.Reserves w k) :
    d.wordKind w = .identifier := by
  have hnone : d.keyword? w = none := by
    rw [Option.eq_none_iff_forall_ne_some]
    intro k hk
    exact h k (keyword?_eq_some_iff.mp hk)
  rw [wordKind, hnone]

/-- A word that is reserved for a keyword is that keyword. -/
theorem wordKind_eq_keyword {d : Dialect} {w : List Char} {k : Keyword} (h : d.Reserves w k) :
    d.wordKind w = .keyword k := by
  rw [wordKind, keyword?_eq_some_iff.mpr h]

end ScriptFront.Dialect
