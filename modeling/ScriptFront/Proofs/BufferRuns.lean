/-
Buffers under any operations.

A run is a list of operations, made one after another of one buffer. Appending
comes in two forms, of which one may be refused memory and then leaves the buffer
as it is, so what a run has put into the buffer depends on what came of its
operations (`Buffer.kept`): everything that was accepted since the buffer was last
made empty. A copy takes the place of the buffer it was made of. Where an operation
ends the program nothing comes after it; what is proved of any list of operations
holds of those that have come back in particular.

Elements past the limit of what can be counted are not appended: an operation that
would do so does not come back, and no run has one (`Buffer.Fits`).

All that an operation does to a buffer is to empty it, to append to it or to copy it. So a
property that these three keep holds after any run (`Buffer.IsKept.after`).
-/
import ScriptFront.Buffer.Basic

set_option autoImplicit false

namespace ScriptFront.Buffer

variable {α : Type}

/-- What can be done with a buffer. -/
inductive Op (α : Type) where
  -- A new buffer takes its place.
  | renew
  | append (a : α)
  -- Appending with a refusal accepted; whether memory would be granted.
  | offer (granted : Bool) (a : α)
  | extend (as : List α)
  | release
  -- Its copy takes its place.
  | copy
deriving Repr

namespace Op

/-- The buffer after the operation. -/
def run [Element α] (b : Buffer α) : Op α → Buffer α
  | renew => empty
  | append a => b.append a
  | offer granted a =>
    match b.offer granted a with
    | .accepted b' => b'
    | .refused _ | .aborted => b
  | extend as => b.extend as
  | release => b.release
  | copy => b.copy

/-- What is kept after the operation, if `held` was before it. -/
def keep [Element α] (b : Buffer α) (held : List α) : Op α → List α
  | renew | release => []
  | append a => held ++ [a]
  | offer granted a =>
    match b.offer granted a with
    | .accepted _ => held ++ [a]
    | .refused _ | .aborted => held
  | extend as => held ++ as
  | copy => held

/-- Every element that the operation appends can still be counted. -/
def Fits (b : Buffer α) : Op α → Prop
  | append _ | offer _ _ => b.size < slotLimit
  | extend as => b.size + as.length ≤ slotLimit
  | renew | release | copy => True

instance decidableFits (b : Buffer α) : (op : Op α) → Decidable (op.Fits b)
  | append _ | offer _ _ => inferInstanceAs (Decidable (b.size < slotLimit))
  | extend as => inferInstanceAs (Decidable (b.size + as.length ≤ slotLimit))
  | renew | release | copy => isTrue trivial

end Op

/-! ## Runs -/

section Runs

variable [Element α]

def after (b : Buffer α) (ops : List (Op α)) : Buffer α := ops.foldl Op.run b

/-- What the operations have put into the buffer and not taken out again, in order. -/
def kept (b : Buffer α) (held : List α) : List (Op α) → List α
  | [] => held
  | op :: ops => kept (op.run b) (op.keep b held) ops

/-- Every element that is appended on the way can be counted. -/
def Fits (b : Buffer α) : List (Op α) → Prop
  | [] => True
  | op :: ops => op.Fits b ∧ Fits (op.run b) ops

instance decidableFits (b : Buffer α) : (ops : List (Op α)) → Decidable (Fits b ops)
  | [] => isTrue trivial
  | op :: ops =>
    have := Buffer.decidableFits (op.run b) ops
    inferInstanceAs (Decidable (op.Fits b ∧ Fits (op.run b) ops))

end Runs

/-! ## What a buffer holds -/

theorem size_eq_length (b : Buffer α) : b.size = b.toList.length := rfl

section Appending

variable [Element α]

@[simp] theorem size_append (b : Buffer α) (a : α) : (b.append a).size = b.size + 1 := by
  rw [size_eq_length, toList_append, List.length_append, List.length_singleton, size_eq_length]

/-- The buffer that an appended element is put into: grown, if it was full. -/
def readied (b : Buffer α) : Buffer α := if b.isFull then b.grow else b

/-- Whether putting the element in takes memory, after all that was asked for has been granted. -/
def overflows (b : Buffer α) : Bool := b.readied.storage.isFull

/-- An append puts the element into the readied buffer. -/
theorem append_eq_push (b : Buffer α) (a : α) : b.append a = b.readied.push a := by
  unfold append readied
  split
  · rfl
  · rfl

/-- Room is refused to a full buffer that lacks slots for its next capacity. -/
theorem makeRoom?_eq (granted : Bool) (b : Buffer α) :
    b.makeRoom? granted =
      if b.isFull = true ∧ b.storage.lacks b.shortage = true ∧ granted = false then
        .error (.allocation (growCapacity b.capacity))
      else .ok b.readied := by
  unfold makeRoom? readied
  cases b.isFull with
  | false => simp
  | true => cases granted <;> simp

/-- **What can come of an append that accepts a refusal**, whatever the buffer: the request is
refused, or the readied buffer has no free slot and memory is refused there, or the element is
appended. -/
theorem offer_eq_ite (granted : Bool) (b : Buffer α) (a : α) :
    b.offer granted a =
      if b.isFull = true ∧ b.storage.lacks b.shortage = true ∧ granted = false then
        .refused (.allocation (growCapacity b.capacity))
      else if b.overflows = true ∧ granted = false then .aborted
      else .accepted (b.append a) := by
  have hroom := makeRoom?_eq granted b
  rw [offer]
  by_cases hrefused : b.isFull = true ∧ b.storage.lacks b.shortage = true ∧ granted = false
  · rw [if_pos hrefused] at hroom ⊢
    rw [hroom]
  · rw [if_neg hrefused] at hroom ⊢
    rw [hroom, append_eq_push, overflows]
    cases hfull : b.readied.storage.isFull <;> cases granted <;> simp [push?, hfull]

/-- An element that is accepted is appended, in whichever way memory was obtained. -/
theorem eq_append_of_offer {granted : Bool} {b b' : Buffer α} {a : α}
    (h : b.offer granted a = .accepted b') : b' = b.append a := by
  rw [offer_eq_ite] at h
  split at h
  · contradiction
  · split at h
    · contradiction
    · exact (Outcome.accepted.inj h).symm

end Appending

section Runs

variable [Element α] {b : Buffer α} {held : List α}

theorem toList_run (h : b.toList = held) (op : Op α) : (op.run b).toList = op.keep b held := by
  subst h
  cases op with
  | renew => rfl
  | append a => exact toList_append b a
  | offer granted a =>
    rw [Op.run, Op.keep]
    cases houtcome : b.offer granted a with
    | accepted b' =>
      rw [eq_append_of_offer houtcome]
      exact toList_append b a
    | refused fault => rfl
    | aborted => rfl
  | extend as => exact toList_extend b as
  | release => rfl
  | copy => rfl

/-- **A buffer holds what a run has put into it** and not taken out again. -/
theorem toList_after (h : b.toList = held) (ops : List (Op α)) :
    (b.after ops).toList = kept b held ops := by
  induction ops generalizing b held with
  | nil => exact h
  | cons op ops ih => exact ih (toList_run h op)

end Runs

/-! ## What runs keep -/

/-- Whether empty buffers have a property, and appending and copying keep it. -/
structure IsKept [Element α] (p : Buffer α → Prop) : Prop where
  empty : p empty
  append : ∀ {b : Buffer α}, p b → b.size < slotLimit → ∀ a, p (b.append a)
  copy : ∀ {b : Buffer α}, p b → p b.copy

namespace IsKept

variable [Element α] {p : Buffer α → Prop} {b : Buffer α}

theorem extend (hp : IsKept p) (h : p b) (as : List α) (hroom : b.size + as.length ≤ slotLimit) :
    p (b.extend as) := by
  induction as generalizing b with
  | nil => exact h
  | cons a as ih =>
    rw [List.length_cons] at hroom
    apply ih (hp.append h (by omega) a)
    rw [size_append]
    omega

/-- One operation keeps the property. A refused append leaves the buffer as it is. -/
theorem run (hp : IsKept p) (h : p b) {op : Op α} (hfits : op.Fits b) : p (op.run b) := by
  cases op with
  | renew => exact hp.empty
  | append a => exact hp.append h hfits a
  | offer granted a =>
    rw [Op.run]
    cases houtcome : b.offer granted a with
    | accepted b' =>
      rw [eq_append_of_offer houtcome]
      exact hp.append h hfits a
    | refused fault => exact h
    | aborted => exact h
  | extend as => exact hp.extend h as hfits
  | release => exact hp.empty
  | copy => exact hp.copy h

/-- **What operations keep holds after any of them.** -/
theorem after (hp : IsKept p) (h : p b) {ops : List (Op α)} (hfits : b.Fits ops) :
    p (b.after ops) := by
  induction ops generalizing b with
  | nil => exact h
  | cons op ops ih => exact ih (hp.run h hfits.1) hfits.2

end IsKept

end ScriptFront.Buffer
