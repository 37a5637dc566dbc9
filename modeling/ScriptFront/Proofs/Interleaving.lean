/-
The two ways of asking, mixed at will.

Both kinds of calls read on from one place, and only `next?` keeps a note about
the end token. So a cursor after any calls is the cursor after as many pulls as
calls were answered, with that note (`Cursor.exists_after_eq_pulled`). The note
counts how often the end token was taken by `next?` (`Cursor.toNat_ended_after`),
which is never more than once, and the pulls go through the tokens of the source
and then stay at the end token (`Cursor.getElem?_tokens`). What any call is
answered follows from these three.

Several cursors that are copied from one another do not disturb each other: each
stands where the calls of its own line have led (`Cursor.foldl_run`).
-/
import Mathlib.Data.List.Basic
import Mathlib.Data.List.Induction
import Mathlib.Logic.Function.Iterate
import ScriptFront.Proofs.Calls

set_option autoImplicit false

namespace ScriptFront

/-- No text becomes the end token. -/
theorem Lexeme.isEof_token (d : Dialect) (c : Char) (s : List Char) (p q : Place) :
    ((ofHead d c s).token p q).isEof = false := by
  apply decide_eq_false
  rcases verdict_ofHead d s c with ⟨k, hk, -, hne⟩ | herror | ⟨herror, -⟩
  · rw [(token_of_ok hk p q).1]
    exact hne
  · simp [token, herror]
  · simp [token, herror]

namespace Cursor

/-! ## The note about the end token -/

/-- The cursor with its note about the end token replaced. -/
def withEnded (c : Cursor) (b : Bool) : Cursor := { c with ended := b }

section WithEnded

variable (c : Cursor) (b : Bool)

@[simp] theorem ended_withEnded : (c.withEnded b).ended = b := rfl

@[simp] theorem place_withEnded : (c.withEnded b).place = c.place := rfl

@[simp] theorem withEnded_ended : c.withEnded c.ended = c := rfl

/-- A pull neither reads nor writes the note. -/
@[simp] theorem pull_withEnded : (c.withEnded b).pull = (c.pull.1, c.pull.2.withEnded b) := by
  unfold pull withEnded
  dsimp only
  split <;> rfl

/-- A pull leaves the note about the end as it is: only `next?` makes one. -/
@[simp] theorem ended_pull : c.pull.2.ended = c.ended := by
  unfold pull
  split <;> rfl

end WithEnded

/-! ## Pulls alone -/

/-- The cursor after a number of pulls. -/
def pulled (c : Cursor) (n : Nat) : Cursor := (fun c => c.pull.2)^[n] c

@[simp] theorem pulled_zero (c : Cursor) : c.pulled 0 = c := rfl

theorem pulled_succ (c : Cursor) (n : Nat) : c.pulled (n + 1) = c.pull.2.pulled n := rfl

/-- The last of several pulls comes after the others. -/
theorem pulled_succ' (c : Cursor) (n : Nat) : c.pulled (n + 1) = (c.pulled n).pull.2 :=
  Function.iterate_succ_apply' _ n c

/-- A pull that comes to the end token has passed over all of the text. -/
theorem exists_pull_of_isEof {c : Cursor} (h : c.pull.1.isEof = true) :
    ∃ p, c.pull = (Token.atEnd p, { c with place := p, rest := [] }) := by
  unfold pull at h ⊢
  split
  · next p hp => exact ⟨p, rfl⟩
  · next p a s hs =>
    rw [hs] at h
    simp only [Lexeme.isEof_token] at h
    contradiction

/-- At the end token a pull stays where it is. -/
theorem pull_pull_of_isEof {c : Cursor} (h : c.pull.1.isEof = true) : c.pull.2.pull = c.pull := by
  obtain ⟨p, hp⟩ := exists_pull_of_isEof h
  rw [hp]
  rfl

/-- Once the end token was pulled, the cursor does not move. -/
theorem pulled_of_isEof {c : Cursor} {n m : Nat} (h : (c.pulled n).pull.1.isEof = true)
    (hm : n < m) : c.pulled m = c.pulled (n + 1) := by
  induction m, hm using Nat.le_induction with
  | base => rfl
  | succ m _ ih => rw [pulled_succ', ih, pulled_succ', pull_pull_of_isEof h]

/-! ## Pulls and the tokens of a source -/

/-- If the end token is next, it is the only one left. -/
theorem tokens_of_isEof {c : Cursor} (hended : c.ended = false) (h : c.pull.1.isEof = true) :
    c.tokens = [c.pull.1] := by
  rw [tokens_of_not_ended hended, h, tokens_of_ended rfl]

/-- If another token is next, the tokens are that one and those after it. -/
theorem tokens_of_not_isEof {c : Cursor} (hended : c.ended = false) (h : c.pull.1.isEof = false) :
    c.tokens = c.pull.1 :: c.pull.2.tokens := by
  rw [tokens_of_not_ended hended, h, ← hended, ← ended_pull]

/-- **Pulls go through the tokens and stay at the last one.** -/
theorem getElem?_tokens {c : Cursor} (hended : c.ended = false) (n : Nat) :
    c.tokens[min n (c.tokens.length - 1)]? = some (c.pulled n).pull.1 := by
  induction n generalizing c with
  | zero =>
    rw [tokens_of_not_ended hended, Nat.zero_min]
    rfl
  | succ n ih =>
    by_cases heof : c.pull.1.isEof = true
    · have hfirst : c.pulled (n + 1) = c.pulled 1 := pulled_of_isEof heof (Nat.succ_pos n)
      rw [tokens_of_isEof hended heof, hfirst, pulled_succ, pulled_zero, pull_pull_of_isEof heof]
      rfl
    · rw [Bool.not_eq_true] at heof
      have hnext : c.pull.2.ended = false := by rw [ended_pull, hended]
      have hpos : 0 < c.pull.2.tokens.length := by
        rw [tokens_of_not_ended hnext]
        exact Nat.succ_pos _
      have hindex : min (n + 1) (c.tokens.length - 1) = min n (c.pull.2.tokens.length - 1) + 1 := by
        rw [tokens_of_not_isEof hended heof, List.length_cons]
        omega
      rw [hindex, tokens_of_not_isEof hended heof, List.getElem?_cons_succ, ih hnext, pulled_succ]

/-- The tokens of a cursor end with the end token. -/
theorem exists_getLast?_tokens {c : Cursor} (hended : c.ended = false) :
    ∃ ending, c.tokens.getLast? = some ending ∧ ending.isEof = true := by
  induction htokens : c.tokens generalizing c with
  | nil =>
    rw [tokens_of_not_ended hended] at htokens
    contradiction
  | cons t rest ih =>
    by_cases heof : c.pull.1.isEof = true
    · rw [tokens_of_isEof hended heof] at htokens
      rw [← htokens]
      exact ⟨c.pull.1, rfl, heof⟩
    · rw [Bool.not_eq_true] at heof
      rw [tokens_of_not_isEof hended heof] at htokens
      obtain ⟨ending, hlast, hending⟩ :=
        ih ((ended_pull c).trans hended) (List.cons.inj htokens).2
      refine ⟨ending, ?_, hending⟩
      rw [List.getLast?_cons, hlast]
      rfl

/-- Pulled one after another, the tokens come in order, and then the last one again
and again. -/
theorem map_pulled_range {c : Cursor} {ending : Token} (hended : c.ended = false)
    (hlast : c.tokens.getLast? = some ending) (k : Nat) :
    (List.range k).map (fun n => (c.pulled n).pull.1) =
      c.tokens.take k ++ List.replicate (k - c.tokens.length) ending := by
  induction k with
  | zero => simp
  | succ k ih =>
    have hnext := getElem?_tokens hended k
    rw [List.range_succ, List.map_append, ih, List.map_singleton]
    by_cases hk : k < c.tokens.length
    · have hindex : min k (c.tokens.length - 1) = k := by omega
      have hnone : k - c.tokens.length = 0 := by omega
      have hnone' : k + 1 - c.tokens.length = 0 := by omega
      rw [hindex] at hnext
      rw [List.take_add_one, hnext, hnone, hnone', Option.toList_some, List.replicate_zero,
        List.append_nil, List.append_nil]
    · have hindex : min k (c.tokens.length - 1) = c.tokens.length - 1 := by omega
      have hmore : k + 1 - c.tokens.length = (k - c.tokens.length) + 1 := by omega
      rw [hindex, ← List.getLast?_eq_getElem?, hlast, Option.some_inj] at hnext
      rw [← hnext, hmore, List.replicate_succ', List.take_of_length_le (by omega),
        List.take_of_length_le (by omega), List.append_assoc]

/-! ## One call after another -/

/-- Whether a call is left without an answer, and what it does if it is not. -/
theorem call_eq (c : Cursor) (a : Call) :
    c.call a =
      if a = .next ∧ c.ended = true then (none, c)
      else
        (some c.pull.1, c.pull.2.withEnded (if a = .next then c.pull.1.isEof else c.ended)) := by
  cases a with
  | pull =>
    rw [if_neg (by simp), if_neg (by simp), ← ended_pull, withEnded_ended]
    rfl
  | next =>
    by_cases hended : c.ended = true
    · rw [if_pos ⟨rfl, hended⟩, call_next_of_ended hended]
    · rw [if_neg (fun h => hended h.2), if_pos rfl,
        call_next_of_not_ended (Bool.not_eq_true _ ▸ hended)]
      rfl

/-- A call goes without a token only if it asks for the next one after the end. -/
theorem call_eq_none_iff (c : Cursor) (a : Call) :
    (c.call a).1 = none ↔ a = .next ∧ c.ended = true := by
  rw [call_eq]
  split
  · next h => simp [h]
  · next h => simp [h]

/-- Calls that follow others go on from where those have led. -/
theorem after_append (c : Cursor) (earlier later : List Call) :
    c.after (earlier ++ later) = (c.after earlier).after later := by
  induction earlier generalizing c with
  | nil => rfl
  | cons a earlier ih => rw [List.cons_append, after, after, ih]

/-- A run that ends with a call. -/
theorem after_concat (c : Cursor) (calls : List Call) (a : Call) :
    c.after (calls ++ [a]) = ((c.after calls).call a).2 :=
  after_append c calls [a]

/-- What calls hand out is what the first hands out and then what the others do. -/
theorem handedOut_cons (c : Cursor) (a : Call) (calls : List Call) :
    c.handedOut (a :: calls) = (c.call a).1.toList ++ (c.call a).2.handedOut calls := by
  cases hcall : c.call a with
  | mk answer c' =>
    cases answer with
    | none => exact handedOut_of_none hcall
    | some t => exact handedOut_of_some hcall

/-- What calls hand out is what the earlier ones hand out and then the later ones. -/
theorem handedOut_append (c : Cursor) (earlier later : List Call) :
    c.handedOut (earlier ++ later) = c.handedOut earlier ++ (c.after earlier).handedOut later := by
  induction earlier generalizing c with
  | nil => rfl
  | cons a earlier ih =>
    rw [List.cons_append, handedOut_cons, handedOut_cons, ih, after, List.append_assoc]

theorem handedOut_concat (c : Cursor) (calls : List Call) (a : Call) :
    c.handedOut (calls ++ [a]) = c.handedOut calls ++ ((c.after calls).call a).1.toList := by
  rw [handedOut_append, handedOut_cons]
  exact congrArg _ (List.append_nil _)

/-! ## Calls as pulls -/

/-- **The cursor after any calls is the cursor after as many pulls** as calls were
answered, but for the note about the end token. The induction is on the calls from
the last one. -/
theorem exists_after_eq_pulled (c : Cursor) (calls : List Call) :
    ∃ b, c.after calls = (c.pulled (c.handedOut calls).length).withEnded b := by
  induction calls using List.reverseRecOn with
  | nil => exact ⟨c.ended, rfl⟩
  | append_singleton calls a ih =>
    obtain ⟨b, hb⟩ := ih
    rw [handedOut_concat, after_concat, call_eq]
    split
    · rw [hb, Option.toList_none, List.append_nil]
      exact ⟨b, rfl⟩
    · rw [hb, pull_withEnded, List.length_append, Option.toList_some, List.length_singleton,
        pulled_succ']
      exact ⟨_, rfl⟩

/-- Calls that have handed out some tokens have read as far as the same number of pulls. -/
theorem place_after (c : Cursor) (calls : List Call) :
    (c.after calls).place = (c.pulled (c.handedOut calls).length).place := by
  obtain ⟨b, hb⟩ := exists_after_eq_pulled c calls
  rw [hb, place_withEnded]

/-- A call that is answered is answered like the next pull. -/
theorem fst_pull_after (c : Cursor) (calls : List Call) :
    (c.after calls).pull.1 = (c.pulled (c.handedOut calls).length).pull.1 := by
  obtain ⟨b, hb⟩ := exists_after_eq_pulled c calls
  rw [hb, pull_withEnded]

/-- What calls hand out is what as many pulls give, in the same order. -/
theorem handedOut_eq_map (c : Cursor) (calls : List Call) :
    c.handedOut calls =
      (List.range (c.handedOut calls).length).map fun n => (c.pulled n).pull.1 := by
  induction calls using List.reverseRecOn with
  | nil => rfl
  | append_singleton calls a ih =>
    rw [handedOut_concat, call_eq]
    split
    · rw [Option.toList_none, List.append_nil]
      exact ih
    · rw [List.length_append, Option.toList_some, List.length_singleton, List.range_succ,
        List.map_append, ← ih, fst_pull_after]
      rfl

/-! ## How often the end is taken -/

/-- How many of the calls are calls of `next?` that are answered with the end token. -/
def endsTaken (c : Cursor) (calls : List Call) : Nat :=
  (calls.zip (c.answers calls)).countP fun p => decide (p.1 = .next) && p.2.any Token.isEof

/-- How often the end has been taken is counted call by call. -/
theorem endsTaken_cons (c : Cursor) (a : Call) (calls : List Call) :
    c.endsTaken (a :: calls) =
      (decide (a = .next) && (c.call a).1.any Token.isEof).toNat +
        (c.call a).2.endsTaken calls := by
  rw [endsTaken, answers, List.zip_cons_cons, List.countP_cons, Nat.add_comm, endsTaken]
  cases decide (a = .next) && (c.call a).1.any Token.isEof
  · rfl
  · rfl

/-- **The note counts the ends taken.** Since it is one bit, there is at most one. -/
theorem toNat_ended_after (c : Cursor) (calls : List Call) :
    (c.after calls).ended.toNat = c.ended.toNat + c.endsTaken calls := by
  induction calls generalizing c with
  | nil => rfl
  | cons a calls ih =>
    have hstep : (c.call a).2.ended.toNat =
        c.ended.toNat + (decide (a = .next) && (c.call a).1.any Token.isEof).toNat := by
      rw [call_eq]
      cases a with
      | pull => simp
      | next => cases hended : c.ended <;> simp [hended]
    rw [after, ih, hstep, endsTaken_cons, Nat.add_assoc]

/-! ## Several cursors -/

/-- What can be done with a row of cursors. -/
inductive Act where
  -- One of them is called.
  | call (i : Nat) (a : Call)
  -- A copy of one of them is put behind the others.
  | copy (i : Nat)
deriving DecidableEq, Repr

def Act.run (cs : List Cursor) : Act → List Cursor
  | .call i a => cs.modify i fun c => (c.call a).2
  | .copy i => cs ++ cs[i]?.toList

/-- The calls in the line of each cursor: those made of it, after those that had been
made of the one it is a copy of. -/
def Act.record (lines : List (List Call)) : Act → List (List Call)
  | .call i a => lines.modify i fun calls => calls ++ [a]
  | .copy i => lines ++ lines[i]?.toList

/-- An act on cursors that have come from one is an act on the calls that have been made of
each. -/
theorem Act.run_map (c : Cursor) (lines : List (List Call)) (act : Act) :
    act.run (lines.map c.after) = (act.record lines).map c.after := by
  cases act with
  | call i a =>
    rw [Act.run, Act.record]
    apply List.ext_getElem?
    intro n
    rw [List.getElem?_modify, List.getElem?_map, List.getElem?_map, List.getElem?_modify]
    by_cases hn : i = n
    · cases lines[n]? with
      | none => rfl
      | some calls => simp [hn, after_concat]
    · simp [hn]
  | copy i =>
    rw [Act.run, Act.record, List.map_append, List.getElem?_map, Option.toList_map]

/-- **Copies do not disturb each other.** After any acts each cursor is the one that
the calls of its own line have led to. -/
theorem foldl_run (c : Cursor) (acts : List Act) :
    acts.foldl Act.run [c] = (acts.foldl Act.record [[]]).map c.after := by
  have hstart : [c] = [[]].map c.after := rfl
  rw [hstart]
  exact List.foldl_hom _ (Act.run_map c)

/-! ## What a call is answered -/

/-- What holds of a cursor that has been called: it keeps pace with the tokens. -/
structure KeepsPace (c : Cursor) (tokens : List Token) (calls : List Call) : Prop where
  -- A further call is left without an answer if it is one of `next?` and such a call
  -- has taken the end token already; then it changes nothing.
  unanswered : ∀ a, ((c.after calls).call a).1 = none ↔ a = .next ∧ 0 < c.endsTaken calls
  untouched : ∀ a, ((c.after calls).call a).1 = none →
    ((c.after calls).call a).2 = c.after calls
  -- Otherwise it is answered with the next token, or the last one if there is no next.
  answered : ∀ a, ¬ (a = .next ∧ 0 < c.endsTaken calls) → ∃ t,
    tokens[min (c.handedOut calls).length (tokens.length - 1)]? = some t ∧
      ((c.after calls).call a).1 = some t
  -- No token was passed over or given twice, up to the end token.
  inOrder : ∃ ending, tokens.getLast? = some ending ∧ ending.isEof = true ∧
    c.handedOut calls = tokens.take (c.handedOut calls).length ++
      List.replicate ((c.handedOut calls).length - tokens.length) ending
  -- Calls of `next?` took the end token at most once,
  once : c.endsTaken calls ≤ 1
  -- and a pull makes no difference to whether they are answered.
  aside : (((c.after calls).call .pull).2.call .next).1 = none ↔
    ((c.after calls).call .next).1 = none
  -- With the end token handed out in either way, the cursor stays where it is.
  atRest : (∃ t ∈ c.handedOut calls, t.isEof = true) → ∀ later,
    (c.after (calls ++ later)).place = (c.after calls).place

section Answers

variable {c : Cursor} (calls : List Call)

/-- A note about the end is there exactly if the end has been taken by `next?`. -/
theorem ended_after_iff (hended : c.ended = false) :
    (c.after calls).ended = true ↔ 0 < c.endsTaken calls := by
  have hcount : (c.after calls).ended.toNat = c.endsTaken calls := by
    rw [toNat_ended_after, hended, Bool.toNat_false, Nat.zero_add]
  rw [← hcount]
  cases (c.after calls).ended
  · simp
  · simp

/-- **Once the end has been handed out the place stays the same**, whatever is called later. -/
theorem place_after_append (h : ∃ t ∈ c.handedOut calls, t.isEof = true) (later : List Call) :
    (c.after (calls ++ later)).place = (c.after calls).place := by
  obtain ⟨t, ht, heof⟩ := h
  rw [handedOut_eq_map, List.mem_map] at ht
  obtain ⟨n, hn, rfl⟩ := ht
  rw [List.mem_range] at hn
  have hmore : (c.handedOut calls).length ≤ (c.handedOut (calls ++ later)).length := by
    rw [handedOut_append, List.length_append]
    exact Nat.le_add_right ..
  rw [place_after, place_after, pulled_of_isEof heof hn,
    pulled_of_isEof heof (Nat.lt_of_lt_of_le hn hmore)]

/-- **Calls keep pace with the tokens**, whichever of the two is called at a time. -/
theorem keepsPace (hended : c.ended = false) : c.KeepsPace c.tokens calls where
  unanswered a := by rw [call_eq_none_iff, ended_after_iff calls hended]
  untouched a h := by
    rw [call_eq_none_iff] at h
    rw [call_eq, if_pos h]
  answered a h := by
    rw [← ended_after_iff calls hended] at h
    rw [call_eq, if_neg h]
    exact ⟨_, getElem?_tokens hended _, congrArg some (fst_pull_after c calls)⟩
  inOrder := by
    obtain ⟨ending, hlast, heof⟩ := exists_getLast?_tokens hended
    refine ⟨ending, hlast, heof, ?_⟩
    conv_lhs => rw [handedOut_eq_map]
    exact map_pulled_range hended hlast _
  once := by
    have hcount := toNat_ended_after c calls
    have hbit := Bool.toNat_le (c.after calls).ended
    omega
  aside := by
    have hpull : ((c.after calls).call .pull).2 = (c.after calls).pull.2 := rfl
    rw [call_eq_none_iff, call_eq_none_iff, hpull, ended_pull]
  atRest := place_after_append calls

end Answers

/-- **Calls of both kinds keep pace with the tokens of a source**, in any order and
number, and so do calls of copies of a cursor: of any number of cursors that are
copied from one another, each is the one that its own line of calls leads to. -/
theorem calls_keepPace (d : Dialect) (source : String) :
    (∀ calls, (Cursor.ofSource d source).KeepsPace (Token.ofSource d source) calls) ∧
    ∀ acts : List Act, acts.foldl Act.run [Cursor.ofSource d source] =
      (acts.foldl Act.record [[]]).map (Cursor.ofSource d source).after :=
  ⟨fun calls => keepsPace calls rfl, foldl_run _⟩

/-- A pull that reaches the end does not keep `next?` from taking it once. -/
example : ((Cursor.ofSource {} "a").answers [.pull, .pull, .next, .next, .pull]).map
    (Option.map Token.isEof) = [some false, some true, some true, none, some true] := by
  decide +kernel

end Cursor

end ScriptFront
