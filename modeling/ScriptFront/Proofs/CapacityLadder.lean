/-
The capacity of a buffer is told by how much it holds.

Capacities are rungs of a ladder: zero, the powers of two from eight on, and the
limit of what can be counted. Growing goes to the next rung
(`isLeast_growCapacity`), and a buffer grows only when it is as large as its
capacity, so its capacity is always the least rung that reaches its size. That is
what every operation keeps (`Buffer.IsSnug.isKept`), and a function of the size alone.

So no subtraction on the way goes below zero, and two buffers with the same
elements have the same capacity, whatever was done with them.
-/
import Mathlib.Data.List.Forall2
import Mathlib.Order.Bounds.Basic
import ScriptFront.Proofs.BufferRuns

set_option autoImplicit false

namespace ScriptFront

/-! ## The ladder -/

/-- A capacity that a buffer can have: `0`, `8`, `16`, `32` and so on up to `2 ^ 63`, and
the limit `2 ^ 64 - 1`. -/
def IsRung (c : Nat) : Prop :=
  c = 0 ∨ (∃ i, 3 ≤ i ∧ i ≤ 63 ∧ c = Nat.pow 2 i) ∨ c = slotLimit

/-- Growing saturates at the bound on the number of slots. -/
theorem growCapacity_le (c : Nat) : growCapacity c ≤ slotLimit := by
  unfold growCapacity minCapacity slotLimit
  omega

/-- Below the bound a growth makes room for at least one element. -/
theorem lt_growCapacity {c : Nat} (h : c < slotLimit) : c < growCapacity c := by
  unfold growCapacity minCapacity
  omega

theorem le_growCapacity {c : Nat} (h : c ≤ slotLimit) : c ≤ growCapacity c := by
  unfold growCapacity
  omega

namespace IsRung

variable {c : Nat}

theorem zero : IsRung 0 := .inl rfl

theorem le_slotLimit (h : IsRung c) : c ≤ slotLimit := by
  rcases h with rfl | ⟨i, -, hi, rfl⟩ | rfl
  · exact Nat.zero_le _
  · have hpow : Nat.pow 2 i ≤ Nat.pow 2 63 := Nat.pow_le_pow_right (by decide) hi
    have htop : Nat.pow 2 63 ≤ slotLimit := by decide
    omega
  · exact le_rfl

/-- The rung after a rung is a rung. -/
theorem grow (h : IsRung c) : IsRung (growCapacity c) := by
  rcases h with rfl | ⟨i, hlow, hhigh, rfl⟩ | rfl
  · exact .inr (.inl ⟨3, le_rfl, by decide, rfl⟩)
  · by_cases hi : i < 63
    · -- Twice the power is the next one, which is still below the limit.
      have hpow : Nat.pow 2 (i + 1) ≤ Nat.pow 2 63 := Nat.pow_le_pow_right (by decide) hi
      have hlarge : Nat.pow 2 3 ≤ Nat.pow 2 i := Nat.pow_le_pow_right (by decide) hlow
      have htwice : Nat.pow 2 (i + 1) = Nat.pow 2 i * 2 := rfl
      have htop : Nat.pow 2 63 ≤ slotLimit := by decide
      have height : Nat.pow 2 3 = 8 := rfl
      refine .inr (.inl ⟨i + 1, by omega, hi, ?_⟩)
      unfold growCapacity minCapacity
      omega
    · have hlast : i = 63 := by omega
      subst hlast
      exact .inr (.inr rfl)
  · exact .inr (.inr rfl)

/-- Above a rung there is none below twice its height, unless it is the limit. -/
theorem growCapacity_le_of_lt {r : Nat} (h : IsRung c) (hr : IsRung r) (hlt : c < r) :
    growCapacity c ≤ r := by
  have hreach : r ≤ slotLimit := hr.le_slotLimit
  rcases hr with rfl | ⟨j, hlow, -, rfl⟩ | rfl
  · omega
  · have hlarge : Nat.pow 2 3 ≤ Nat.pow 2 j := Nat.pow_le_pow_right (by decide) hlow
    have height : Nat.pow 2 3 = 8 := rfl
    have htwice : 2 * c ≤ Nat.pow 2 j := by
      rcases h with rfl | ⟨i, -, -, rfl⟩ | rfl
      · omega
      · have hij : i < j := (Nat.pow_lt_pow_iff_right (by decide)).mp hlt
        have hpow : Nat.pow 2 (i + 1) ≤ Nat.pow 2 j := Nat.pow_le_pow_right (by decide) hij
        have hstep : Nat.pow 2 (i + 1) = Nat.pow 2 i * 2 := rfl
        omega
      · exact absurd hlt (Nat.not_lt.mpr hreach)
    unfold growCapacity minCapacity
    omega
  · exact growCapacity_le c

end IsRung

/-- **Growing goes to the next rung.** -/
theorem isLeast_growCapacity {c : Nat} (h : IsRung c) (hlimit : c < slotLimit) :
    IsLeast {r | IsRung r ∧ c < r} (growCapacity c) :=
  ⟨⟨h.grow, lt_growCapacity hlimit⟩, fun _ hr => h.growCapacity_le_of_lt hr.1 hr.2⟩

/-! ## The capacity of a buffer -/

namespace Buffer

variable {α : Type} {b : Buffer α}

/-- The capacity is the least rung that reaches the size. -/
def IsSnug (b : Buffer α) : Prop := IsLeast {c | IsRung c ∧ b.size ≤ c} b.capacity

/-- The capacity climbs one rung when all of it is used, and only then. -/
theorem capacity_append [Element α] (b : Buffer α) (a : α) :
    (b.append a).capacity = if b.size = b.capacity then growCapacity b.capacity else b.capacity := by
  unfold append isFull
  by_cases hfull : b.size = b.capacity
  · rw [if_pos (decide_eq_true hfull), if_pos hfull]
    rfl
  · rw [if_neg (by simpa using hfull), if_neg hfull]
    rfl

namespace IsSnug

theorem size_le (h : b.IsSnug) : b.size ≤ b.capacity := h.1.2

/-- The next capacity is never below the size, so the shortage is the true difference. -/
theorem size_add_shortage (h : b.IsSnug) : b.size + b.shortage = growCapacity b.capacity := by
  have hgrow : b.capacity ≤ growCapacity b.capacity := le_growCapacity h.1.1.le_slotLimit
  have hsize : b.size ≤ b.capacity := h.size_le
  unfold shortage
  omega

/-- Buffers of one size stand on one rung, the least that has room for it. -/
theorem capacity_eq {b' : Buffer α} (h : b.IsSnug) (h' : b'.IsSnug) (hsize : b.size = b'.size) :
    b.capacity = b'.capacity := by
  unfold IsSnug at h h'
  rw [hsize] at h
  exact h.unique h'

variable [Element α]

theorem empty : (empty : Buffer α).IsSnug :=
  ⟨⟨.zero, le_rfl⟩, fun c _ => Nat.zero_le c⟩

/-- Appending to the least rung with room gives the least rung with room for one more. -/
theorem append (h : b.IsSnug) (hroom : b.size < slotLimit) (a : α) : (b.append a).IsSnug := by
  unfold IsSnug
  rw [size_append, capacity_append]
  by_cases hfull : b.size = b.capacity
  · rw [if_pos hfull, hfull]
    exact isLeast_growCapacity h.1.1 (hfull ▸ hroom)
  · -- There is room left, and every rung that reaches one further reaches this far.
    have hlt : b.size < b.capacity := Nat.lt_of_le_of_ne h.size_le hfull
    rw [if_neg hfull]
    refine ⟨⟨h.1.1, hlt⟩, ?_⟩
    intro c hc
    exact h.2 ⟨hc.1, Nat.le_of_succ_le hc.2⟩

/-- Every operation keeps the capacity on the least rung with room for the elements. -/
theorem isKept : IsKept (IsSnug : Buffer α → Prop) where
  empty := empty
  append h := h.append
  copy h := h

end IsSnug

/-! ## Equality -/

/-- Two lists are equivalent when they have one length and their elements are equal in pairs. -/
theorem isEqv_iff_forall₂ (eq : α → α → Bool) (l l' : List α) :
    l.isEqv l' eq = true ↔ List.Forall₂ (fun x y => eq x y = true) l l' := by
  induction l generalizing l' with
  | nil => cases l' <;> simp [List.isEqv]
  | cons x l ih => cases l' <;> simp [List.isEqv, ih]

/-- Snug buffers are equal if their elements are: the capacity makes no difference. -/
theorem IsSnug.equal_iff {b' : Buffer α} (h : b.IsSnug) (h' : b'.IsSnug) (eq : α → α → Bool) :
    b.equal eq b' = true ↔ List.Forall₂ (fun x y => eq x y = true) b.toList b'.toList := by
  have : BEq α := ⟨eq⟩
  rw [← isEqv_iff_forall₂, equal, Bool.and_eq_true, decide_eq_true_eq, ← Array.isEqv_toList]
  constructor
  · intro hequal
    exact hequal.2
  · intro helements
    refine ⟨h.capacity_eq h' ?_, helements⟩
    exact ((isEqv_iff_forall₂ eq _ _).mp helements).length_eq

/-! ## After any operations -/

/-- **The state of a buffer is told by what it holds.** After any operations it holds
what they have put into it and not taken out again, and its capacity is the least
rung that reaches its size. As long as elements are appended, one by one or several at
once, the shortage is what is missing to the next capacity and is not cut off at zero.
Any two buffers are equal if and only if their elements are. -/
theorem snug_after [Element α] (ops : List (Op α)) (hfits : Fits empty ops) :
    let b := (empty : Buffer α).after ops
    b.toList = kept empty [] ops ∧ b.size ≤ b.capacity ∧
      IsLeast {c | IsRung c ∧ b.size ≤ c} b.capacity ∧
      (∀ as : List α, b.size + as.length < slotLimit →
        (b.extend as).size + (b.extend as).shortage = growCapacity (b.extend as).capacity) ∧
      ∀ ops' : List (Op α), Fits empty ops' → ∀ eq : α → α → Bool,
        b.equal eq (empty.after ops') = true ↔
          List.Forall₂ (fun x y => eq x y = true) b.toList (empty.after ops').toList := by
  intro b
  have hsnug : b.IsSnug := IsSnug.isKept.after .empty hfits
  refine ⟨toList_after rfl ops, hsnug.size_le, hsnug, ?_, ?_⟩
  · intro as hroom
    exact (IsSnug.isKept.extend hsnug as (Nat.le_of_lt hroom)).size_add_shortage
  · intro ops' hfits' eq
    exact hsnug.equal_iff (IsSnug.isKept.after .empty hfits') eq

/-- Two histories of ten elements, one with a release, a refusal and a copy on the way. -/
theorem snug_after_mixed :
    let ops : List (Op Nat) := [.append 7, .release, .offer false 7, .extend (List.range 9), .copy,
      .offer true 9]
    let ops' : List (Op Nat) := [.extend (List.range 10)]
    Fits empty ops ∧ Fits empty ops' ∧ (empty.after ops).toList = List.range 10 ∧
      IsLeast {c | IsRung c ∧ 10 ≤ c} 16 ∧
      (0 < slotLimit ∧ (empty.after ops).size + (empty.after ops).shortage = growCapacity 16) ∧
      (empty.after ops).equal (fun x y => x == y) (empty.after ops') = true := by
  intro ops ops'
  have hfits : Fits empty ops := by decide
  have hfits' : Fits empty ops' := by decide
  obtain ⟨hkept, -, hleast, hshortage, hequal⟩ := snug_after ops hfits
  refine ⟨hfits, hfits', hkept, hleast, ⟨by decide, hshortage [] (by decide)⟩, ?_⟩
  have hsame : (empty.after ops).toList = (empty.after ops').toList := by decide
  rw [hequal ops' hfits', hsame]
  exact List.forall₂_same.mpr fun x _ => beq_self_eq_true x

end Buffer

end ScriptFront
