/-
What lies between tokens, as the texts that may lie there.

`Trivia` holds of a stretch of layout and comments together with the text that
follows it: a comment has to run up to a line feed or up to the end of the
source, so whether a stretch is trivia depends on what comes after it.

The two results are that every text divides into trivia and a rest that does
not begin with any (`exists_trivia`), and that `skipTrivia` makes exactly this
division (`skipTrivia_append`), so that there is only one.
-/
import ScriptFront.Proofs.TokenClass

set_option autoImplicit false

namespace ScriptFront

open Token (IsLayout isBlank_iff)

/-- The text is used up or goes on with a line feed. -/
def AtLineEnd (s : List Char) : Prop := s = [] ∨ ∃ t, s = '\n' :: t

/-- `(space | tab | CR | LF | // [^\n]*)*`, followed by `after`; a comment runs
up to a line feed or the end of the source. -/
inductive Trivia : List Char → List Char → Prop where
  | nil {after : List Char} : Trivia [] after
  | layout {c : Char} {s after : List Char} : IsLayout c → Trivia s after → Trivia (c :: s) after
  | comment {body s after : List Char} :
      '\n' ∉ body → AtLineEnd (s ++ after) → Trivia s after →
        Trivia ('/' :: '/' :: (body ++ s)) after

/-- The text begins with layout or with a comment. -/
def BeginsTrivia (s : List Char) : Prop :=
  (∃ c t, s = c :: t ∧ IsLayout c) ∨ ∃ t, s = '/' :: '/' :: t

/-! ## Every text divides -/

/-- What follows a comment is the end of its line, or of the source. -/
theorem atLineEnd_dropWhile (s : List Char) : AtLineEnd (s.dropWhile (· != '\n')) := by
  have hhead := List.head?_dropWhile_not (· != '\n') s
  cases hs : s.dropWhile (· != '\n') with
  | nil => exact .inl rfl
  | cons c t =>
    rw [hs] at hhead
    obtain rfl : c = '\n' := by simpa using hhead
    exact .inr ⟨t, rfl⟩

/-- Every text is trivia and a rest that begins with none. The induction is on
the length, since a comment is passed as a whole. -/
theorem exists_trivia (s : List Char) :
    ∃ gap rest, s = gap ++ rest ∧ Trivia gap rest ∧ ¬ BeginsTrivia rest := by
  induction hn : s.length using Nat.strongRecOn generalizing s with
  | ind n ih =>
    subst hn
    -- Either the text begins with trivia, which is taken off, or it stays as it is.
    by_cases hbegin : BeginsTrivia s
    · rcases hbegin with ⟨c, t, rfl, hc⟩ | ⟨t, rfl⟩
      · obtain ⟨gap, rest, rfl, htrivia, hrest⟩ := ih t.length (Nat.lt_succ_self _) t rfl
        exact ⟨c :: gap, rest, rfl, .layout hc htrivia, hrest⟩
      · have hshort : (t.dropWhile (· != '\n')).length < t.length + 2 :=
          Nat.lt_add_right 1 (Nat.lt_succ_of_le (List.dropWhile_sublist _).length_le)
        obtain ⟨gap, rest, hsplit, htrivia, hrest⟩ := ih _ hshort _ rfl
        have hbody : '\n' ∉ t.takeWhile (· != '\n') := fun hmem =>
          absurd (List.all_eq_true.mp List.all_takeWhile _ hmem) (by decide)
        refine ⟨'/' :: '/' :: (t.takeWhile (· != '\n') ++ gap), rest, ?_,
          .comment hbody (hsplit ▸ atLineEnd_dropWhile t) htrivia, hrest⟩
        rw [List.cons_append, List.cons_append, List.append_assoc, ← hsplit,
          List.takeWhile_append_dropWhile]
    · exact ⟨[], s, rfl, .nil, hbegin⟩

/-! ## What is passed over -/

/-- A comment is passed over to the end of its line. -/
theorem skipTrivia_comment {body t : List Char} (p : Place) (hbody : '\n' ∉ body)
    (ht : AtLineEnd t) : skipTrivia p true (body ++ t) = skipTrivia (p.through body) false t := by
  induction body generalizing p with
  | nil =>
    rcases ht with rfl | ⟨u, rfl⟩
    · rfl
    · rfl
  | cons c body ih =>
    rw [List.mem_cons, not_or] at hbody
    rw [List.cons_append, skipTrivia, if_neg (Ne.symm hbody.1), if_pos (Bool.true_or _),
      ih (p.advance c) hbody.2, Place.through_cons]

/-- **Trivia are passed over**, and the place behind them is the one that counting leads to. -/
theorem skipTrivia_trivia {gap after : List Char} (p : Place) (h : Trivia gap after) :
    skipTrivia p false (gap ++ after) = skipTrivia (p.through gap) false after := by
  induction h generalizing p with
  | nil => rfl
  | @layout c s after hc _ ih =>
    rw [List.cons_append, skipTrivia, Place.through_cons]
    split
    · exact ih (p.advance c)
    · rw [isBlank_iff.mpr hc, Bool.false_or, if_pos rfl]
      exact ih (p.advance c)
  | @comment body s after hbody hend _ ih =>
    rw [List.cons_append, List.cons_append, List.append_assoc, skipTrivia, if_neg (by decide),
      if_neg (by decide), if_pos ⟨rfl, rfl⟩, skipTrivia, if_neg (by decide),
      if_pos (Bool.true_or _), skipTrivia_comment _ hbody hend, ih, ← Place.through_append]
    rfl

/-- Where no trivia begin nothing is passed over. -/
theorem skipTrivia_stop {s : List Char} (p : Place) (h : ¬ BeginsTrivia s) :
    skipTrivia p false s = (p, s) := by
  cases s with
  | nil => rfl
  | cons c s =>
    have hlayout : ¬ IsLayout c := fun hc => h (.inl ⟨c, s, rfl, hc⟩)
    have hcomment : ¬ (c = '/' ∧ s.head? = some '/') := by
      rintro ⟨rfl, hs⟩
      obtain ⟨t, rfl⟩ := List.head?_eq_some_iff.mp hs
      exact h (.inr ⟨t, rfl⟩)
    rw [skipTrivia, if_neg fun hc => hlayout (.inr (.inr (.inr hc))), if_neg _,
      if_neg hcomment]
    rw [Bool.false_or]
    exact mt isBlank_iff.mp hlayout

/-- **What is passed over is the trivia at the head of the text**, all of it and
nothing else. -/
theorem skipTrivia_append {gap rest : List Char} (p : Place) (htrivia : Trivia gap rest)
    (hrest : ¬ BeginsTrivia rest) : skipTrivia p false (gap ++ rest) = (p.through gap, rest) := by
  rw [skipTrivia_trivia p htrivia, skipTrivia_stop _ hrest]

end ScriptFront
