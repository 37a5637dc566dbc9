/-
Calls of a cursor, in any order.

A cursor answers two kinds of calls, and they can be mixed at will. A call of
`next?` after the end token was handed out is not answered and changes nothing;
every other call makes one cut, whichever kind it is (`Cursor.call_cases`). So
the tokens that a list of calls hands out are cut from the source one after
another, and the cursor stands where the last cut stops
(`Cursor.exists_succession`).
-/
import ScriptFront.Proofs.Cuts

set_option autoImplicit false

namespace ScriptFront.Cursor

/-! ## Calls and their answers -/

/-- What a cursor can be asked for. -/
inductive Call where
  | pull
  | next
deriving DecidableEq, Repr

/-- The token that is handed out, if any, and the cursor after the call. -/
def call (c : Cursor) : Call → Option Token × Cursor
  | .pull => (some c.pull.1, c.pull.2)
  | .next =>
    match c.next? with
    | none => (none, c)
    | some (t, c') => (some t, c')

def after (c : Cursor) : List Call → Cursor
  | [] => c
  | a :: calls => (c.call a).2.after calls

def answers (c : Cursor) : List Call → List (Option Token)
  | [] => []
  | a :: calls => (c.call a).1 :: (c.call a).2.answers calls

/-- The tokens among the answers to one call after another. -/
def handedOut (c : Cursor) (calls : List Call) : List Token := (c.answers calls).filterMap id

section Calls

variable {c c' : Cursor} {a : Call} {calls : List Call}

theorem handedOut_of_none (h : c.call a = (none, c')) :
    c.handedOut (a :: calls) = c'.handedOut calls := by
  rw [handedOut, answers, h]
  rfl

theorem handedOut_of_some {t : Token} (h : c.call a = (some t, c')) :
    c.handedOut (a :: calls) = t :: c'.handedOut calls := by
  rw [handedOut, answers, h]
  rfl

theorem call_next_of_ended (h : c.ended = true) : c.call .next = (none, c) := by
  rw [call, next?, if_pos h]

theorem call_next_of_not_ended (h : c.ended = false) :
    c.call .next = (some c.pull.1, { c.pull.2 with ended := c.pull.1.isEof }) := by
  rw [call, next?_of_not_ended h]

end Calls

/-! ## Cuts of calls -/

/-- **One call makes one cut**, or it is not answered and changes nothing. -/
theorem call_cases {c : Cursor} {source before : List Char} (h : c.Passed source before)
    (a : Call) :
    c.call a = (none, c) ∨
      ∃ (k : Cut) (c' : Cursor), c.call a = (some k.token, c') ∧ k.before = before ∧
        k.stop ++ k.after = source ∧ k.Sound c.dialect ∧
        c'.Passed source k.stop ∧ c'.dialect = c.dialect := by
  obtain ⟨k, rfl, hrest, hsound, hpull⟩ := exists_cut h
  have hwhole : k.stop ++ k.after = source := by
    rw [← h.whole, ← hrest, Cut.stop_append_after]
  cases a with
  | pull =>
    refine .inr ⟨k, c.pull.2, ?_, rfl, hwhole, hsound, ?_, ?_⟩
    · rw [call, hpull]
    · rw [hpull]
      exact ⟨rfl, hwhole⟩
    · rw [hpull]
  | next =>
    -- The two kinds of calls differ only in what is noted about the end token.
    by_cases hended : c.ended = true
    · exact .inl (call_next_of_ended hended)
    · refine .inr ⟨k, { c.pull.2 with ended := c.pull.1.isEof }, ?_, rfl, hwhole, hsound, ?_, ?_⟩
      · rw [call_next_of_not_ended (Bool.not_eq_true _ ▸ hended), hpull]
      · rw [hpull]
        exact ⟨rfl, hwhole⟩
      · rw [hpull]

/-- **What calls hand out is cut from the source**, one token after another, and
the cursor has passed what lies before it. The induction is on the calls. -/
theorem exists_succession {c : Cursor} {source before : List Char} (h : c.Passed source before)
    (calls : List Call) :
    ∃ cuts passed, Succession c.dialect source before cuts ∧
      cuts.map Cut.token = c.handedOut calls ∧ (c.after calls).Passed source passed := by
  induction calls generalizing c before with
  | nil => exact ⟨[], before, .nil, rfl, h⟩
  | cons a calls ih =>
    rcases call_cases h a with hnone | ⟨k, c', hcall, rfl, hwhole, hsound, hpassed, hdialect⟩
    · obtain ⟨cuts, passed, hcuts, htokens, hafter⟩ := ih h
      refine ⟨cuts, passed, hcuts, ?_, ?_⟩
      · rw [htokens, handedOut_of_none hnone]
      · rw [after, hnone]
        exact hafter
    · obtain ⟨cuts, passed, hcuts, htokens, hafter⟩ := ih hpassed
      refine ⟨k :: cuts, passed, .cons hsound hwhole (hdialect ▸ hcuts), ?_, ?_⟩
      · rw [List.map_cons, htokens, handedOut_of_some hcall]
      · rw [after, hcall]
        exact hafter

end ScriptFront.Cursor
