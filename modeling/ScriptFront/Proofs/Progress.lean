/-
Reading gets on and comes to an end.

Nothing in the loops of a walk bounds them: one starts anew at each line feed, another
alternates between blanks and comments, and a source may be malformed in any way. Still every
call comes back, from wherever other calls have led to, because the walk keeps pace with a
cursor, which takes characters off a text (`Walk.Follows`). What a pull takes off is told by
what comes next: nothing but trivia leads to the end token, anything else gives way by one
character at least (`Cursor.isEof_pull_iff`, `Cursor.exists_taken`).

So the calls of `next?` that are answered can be counted. Each of them lowers `remaining`,
which pulls in between never raise (`Cursor.nextsAnswered_add_remaining_le`), and as long as
the end token was not handed out no call of `next?` has gone without an answer.
-/
import ScriptFront.Proofs.CharBoundaries

set_option autoImplicit false

namespace ScriptFront.Cursor

/-! ## What a pull takes -/

/-- The end token comes next exactly if only trivia is left. -/
theorem isEof_pull_iff (c : Cursor) : c.pull.1.isEof = true ↔ Trivia c.rest [] := by
  constructor
  · intro heof
    obtain ⟨gap, rest, hsplit, htrivia, hbegins⟩ := exists_trivia c.rest
    have hskip := skipTrivia_append c.place htrivia hbegins
    rw [← hsplit] at hskip
    cases rest with
    | nil =>
      rw [hsplit, List.append_nil]
      exact htrivia
    | cons a s =>
      rw [pull, hskip] at heof
      simp only [Lexeme.isEof_token] at heof
      contradiction
  · intro htrivia
    have hskip := skipTrivia_append c.place htrivia not_beginsTrivia_nil
    rw [List.append_nil] at hskip
    rw [pull, hskip]
    exact Token.isEof_atEnd _

/-- Any other token takes characters off the text, and the place moves through them. -/
theorem exists_taken {c : Cursor} {source before : List Char} (h : c.Passed source before)
    (heof : c.pull.1.isEof = false) :
    ∃ taken, taken ≠ [] ∧ taken ++ c.pull.2.rest = c.rest ∧
      c.pull.2.place = .through .start (before ++ taken) := by
  obtain ⟨k, rfl, hrest, hsound, hpull⟩ := exists_cut h
  rw [hpull] at heof ⊢
  rcases hsound with hend | htoken
  · dsimp only at heof
    rw [hend.token] at heof
    contradiction
  · refine ⟨k.gap ++ k.text, ?_, ?_, ?_⟩
    · exact List.append_ne_nil_of_right_ne_nil _ htoken.longest.reading.ne_nil
    · rw [← hrest, List.append_assoc]
    · rw [← List.append_assoc]
      rfl

/-- A pull never leaves more text ahead. -/
theorem length_rest_pull_le (c : Cursor) : c.pull.2.rest.length ≤ c.rest.length := by
  rcases isEof_or_length_lt c with heof | hlt
  · obtain ⟨p, hp⟩ := exists_pull_of_isEof heof
    rw [hp]
    exact Nat.zero_le _
  · exact Nat.le_of_lt hlt

/-! ## How often `next?` is answered -/

/-- How many of the calls are calls of `next?` that are answered. -/
def nextsAnswered (c : Cursor) (calls : List Call) : Nat :=
  (calls.zip (c.answers calls)).countP fun p => decide (p.1 = .next) && p.2.isSome

theorem nextsAnswered_cons (c : Cursor) (a : Call) (calls : List Call) :
    c.nextsAnswered (a :: calls) =
      (c.call a).2.nextsAnswered calls +
        if (decide (a = .next) && (c.call a).1.isSome) = true then 1 else 0 := by
  rw [nextsAnswered, answers, List.zip_cons_cons, List.countP_cons]
  rfl

/-- One call uses up what it is answered with. -/
theorem remaining_call_le (c : Cursor) (a : Call) :
    (c.call a).2.remaining +
        (if (decide (a = .next) && (c.call a).1.isSome) = true then 1 else 0) ≤ c.remaining := by
  cases a with
  | pull =>
    have hle := length_rest_pull_le c
    have hended : (c.call .pull).2.ended = c.ended := ended_pull c
    have hrest : (c.call .pull).2.rest = c.pull.2.rest := rfl
    simp only [remaining, hended, hrest]
    split
    · simp
    · simpa using hle
  | next =>
    by_cases hended : c.ended = true
    · rw [call_next_of_ended hended]
      simp
    · rw [Bool.not_eq_true] at hended
      have hlt := remaining_lt (next?_of_not_ended hended)
      rw [call_next_of_not_ended hended]
      exact hlt

/-- **Calls of `next?` are answered no more often than `remaining` says.** The induction is
on the calls. -/
theorem nextsAnswered_add_remaining_le (c : Cursor) (calls : List Call) :
    c.nextsAnswered calls + (c.after calls).remaining ≤ c.remaining := by
  induction calls generalizing c with
  | nil => exact Nat.le_of_eq (Nat.zero_add _)
  | cons a calls ih =>
    have hstep := remaining_call_le c a
    have hlater := ih (c.call a).2
    rw [nextsAnswered_cons, after]
    omega

/-- The note about the end token stays. -/
theorem ended_of_ended_after {c : Cursor} (calls : List Call) (h : c.ended = true) :
    (c.after calls).ended = true := by
  have hcount := toNat_ended_after c calls
  rw [h, Bool.toNat_true] at hcount
  by_contra hended
  rw [Bool.not_eq_true] at hended
  rw [hended, Bool.toNat_false] at hcount
  omega

/-- As long as the end token was not handed out, each of them was answered. -/
theorem nextsAnswered_eq_count {c : Cursor} {calls : List Call}
    (h : (c.after calls).ended = false) : c.nextsAnswered calls = calls.count .next := by
  induction calls generalizing c with
  | nil => rfl
  | cons a calls ih =>
    have hended : c.ended = false := by
      rw [Bool.eq_false_iff]
      intro hended
      rw [ended_of_ended_after _ hended] at h
      contradiction
    have hanswered : (c.call a).1.isSome = true := by
      rw [Option.isSome_iff_ne_none, ne_eq, call_eq_none_iff, hended]
      exact fun hnone => absurd hnone.2 Bool.false_ne_true
    rw [nextsAnswered_cons, ih h, hanswered, Bool.and_true, List.count_cons]
    simp

/-! ## What calls lead to -/

/-- What holds of a pull where `before` was passed and `rest` is left. -/
structure MovesOn (c : Cursor) (before rest : List Char) : Prop where
  offset : byteLength before = c.place.offset
  -- The end token comes if nothing but trivia is left behind the offset.
  atEnd : c.pull.1.isEof = true ↔ Trivia rest []
  -- If not, the offset grows by one character and those taken with it.
  behind : c.pull.1.isEof = false → c.place.offset < c.pull.2.place.offset ∧
    ∃ a taken left, rest = a :: taken ++ left ∧
      c.pull.2.place.offset = byteLength (before ++ a :: taken)

/-- Wherever a cursor stands in a source, a pull passes at least one character or finds
nothing but trivia and is answered with the end token. -/
theorem Passed.movesOn {c : Cursor} {source before : List Char} (h : c.Passed source before) :
    c.MovesOn before c.rest := by
  have hoffset : c.place.offset = byteLength before := by
    rw [h.place, Place.offset_start_through]
  refine ⟨hoffset.symm, isEof_pull_iff c, fun heof => ?_⟩
  obtain ⟨taken, hne, hrest, hplace⟩ := exists_taken h heof
  obtain ⟨a, s, rfl⟩ := List.exists_cons_of_ne_nil hne
  have hnext : c.pull.2.place.offset = byteLength (before ++ a :: s) := by
    rw [hplace, Place.offset_start_through]
  refine ⟨?_, a, s, c.pull.2.rest, hrest.symm, hnext⟩
  have hpos := byteLength_pos (List.cons_ne_nil a s)
  rw [hoffset, hnext, byteLength_append]
  omega

/-- What holds of the cursor that calls of a source have led to. -/
structure GetsOn (d : Dialect) (source : String) (calls : List Call) (c : Cursor) : Prop where
  -- A walk that is called in the same way has come back, and it comes back once more with the
  -- next token.
  returns : ∀ fallback, ∃ w w',
    (Walk.run d fallback source .begin calls).run =
        .some (.ok ((Cursor.ofSource d source).answers calls, w)) ∧
      w.current = c.place.offset ∧
      (Walk.nextToken d fallback source w).run = .some (.ok (c.pull.1, w')) ∧
      w'.current = c.pull.2.place.offset
  progress : ∃ before rest, before ++ rest = source.toList ∧ c.MovesOn before rest
  -- Each character accounts for one answer of `next?` at most, and the end for one more,
  bounded : (Cursor.ofSource d source).nextsAnswered calls ≤ source.length + 1
  -- and once it was asked so often, there is no answer any more.
  ends : source.length < calls.count .next → (c.call .next).1 = none

/-- **Reading always gets on.** From wherever calls have led to in whatever source, the next
token is reached. It is the end token exactly if only trivia is left, and otherwise the
offset moves behind one more character at least, so that `next?` is answered no more often
than there are characters, and once more. -/
theorem calls_getOn (d : Dialect) (source : String) (calls : List Call) :
    ((Cursor.ofSource d source).after calls).GetsOn d source calls := by
  have hbound := nextsAnswered_add_remaining_le (Cursor.ofSource d source) calls
  have hall : (Cursor.ofSource d source).remaining = source.length + 1 := rfl
  rw [hall] at hbound
  refine ⟨?_, ?_, ?_, ?_⟩
  · intro fallback
    obtain ⟨w, before, hrun, hw⟩ := Walk.run_eq fallback (Walk.follows_ofSource d source) calls
    obtain ⟨w', before', htoken, hw'⟩ := Walk.nextToken_eq fallback hw
    refine ⟨w, w', congrArg ExceptT.run hrun, ?_, congrArg ExceptT.run htoken, ?_⟩
    · rw [hw.walk.current, hw.cursor.place, Place.offset_start_through]
    · rw [hw'.walk.current, hw'.cursor.place, Place.offset_start_through]
  · obtain ⟨_, _, _, _, hpassed⟩ := exists_succession (passed_ofSource d source) calls
    exact ⟨_, _, hpassed.whole, hpassed.movesOn⟩
  · omega
  · intro hmore
    rw [call_eq_none_iff]
    by_cases hended : ((Cursor.ofSource d source).after calls).ended = true
    · exact ⟨rfl, hended⟩
    · -- Then each call so far was answered, and there is room for one more.
      have hcount := nextsAnswered_eq_count (Bool.not_eq_true _ ▸ hended)
      have hroom : 0 < ((Cursor.ofSource d source).after calls).remaining := by
        rw [remaining, if_neg hended]
        exact Nat.succ_pos _
      omega

end ScriptFront.Cursor
