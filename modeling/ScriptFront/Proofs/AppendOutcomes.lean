/-
What comes of an append that accepts a refusal.

It is told by the state of the buffer alone: how much it holds, its capacity and its slots. After any
operations there is a slot for every element (`Buffer.IsHoused`), and a request for the next capacity
brings at least as many slots as that. So a full buffer has a free slot once it has grown, and
memory that nobody asks about is taken only by a buffer that has room left and no slot
(`Buffer.IsHoused.overflows_iff`). A refusal comes where a full buffer has fewer slots than its next
capacity (`Buffer.IsHoused.offer_eq`).

How many slots more memory brings is up to the memory. Where a request brings what it asks for and a
storage does no more than double itself (`Element.IsExact`), a full buffer always has fewer slots than
its next capacity (`Buffer.IsThrifty`), and is refused whenever memory is (`Buffer.IsThrifty.offer_eq`).
-/
import ScriptFront.Proofs.CapacityLadder

set_option autoImplicit false

namespace ScriptFront

/-! ## Slots -/

/-- A request brings what it asks for, and a storage that gets slots by itself at most doubles them,
unless there were fewer than four. -/
structure Element.IsExact (α : Type) [Element α] : Prop where
  onRequest : ∀ present needed, (onRequest α).slots present needed = needed
  onPush : ∀ present needed, (onPush α).slots present needed ≤ max minCapacity (max (2 * present) needed)

/-- Elements of which nothing else is said are given slots exactly. -/
theorem Element.isExact_default (α : Type) : @IsExact α defaultElement where
  onRequest _ _ := rfl
  onPush present needed := by
    show max (max 4 (2 * present)) needed ≤ max minCapacity (max (2 * present) needed)
    unfold minCapacity
    omega

/-- Twice a capacity is beyond the limit by one at most. -/
theorem IsRung.two_mul_le {c : Nat} (h : IsRung c) (hlimit : c < slotLimit) :
    2 * c ≤ slotLimit + 1 := by
  rcases h with rfl | ⟨i, -, hi, rfl⟩ | rfl
  · exact Nat.zero_le _
  · have hpow : Nat.pow 2 i ≤ Nat.pow 2 63 := Nat.pow_le_pow_right (by decide) hi
    have htop : 2 * Nat.pow 2 63 = slotLimit + 1 := by decide
    omega
  · exact absurd hlimit (Nat.lt_irrefl _)

/-- A capacity that is not zero is eight at least. -/
theorem IsRung.minCapacity_le {c : Nat} (h : IsRung c) (hpos : 0 < c) : minCapacity ≤ c := by
  rcases h with rfl | ⟨i, hlow, -, rfl⟩ | rfl
  · contradiction
  · have hpow : Nat.pow 2 3 ≤ Nat.pow 2 i := Nat.pow_le_pow_right (by decide) hlow
    exact hpow
  · decide

namespace Buffer

variable {α : Type} [Element α] {b : Buffer α}

/-- A push takes slots only when all the slots there are hold elements, and then at least one
more. -/
theorem slots_push (b : Buffer α) (a : α) :
    (b.push a).storage.slots =
      if b.storage.slots ≤ b.size then (Element.onPush α).slots b.storage.slots (b.size + 1)
      else b.storage.slots := by
  simp only [push, Storage.push, Storage.isFull, decide_eq_true_eq]
  rfl

/-- A growth takes slots only when the storage lacks some for the capacity aimed at. -/
theorem slots_grow (b : Buffer α) :
    b.grow.storage.slots =
      if b.storage.lacks b.shortage = true then
        (Element.onRequest α).slots b.storage.slots (b.size + b.shortage)
      else b.storage.slots := by
  rw [grow, Storage.reserve]
  split
  · rfl
  · rfl

/-- A storage is copied with slots for its elements, unless they take no room. -/
theorem slots_copy (b : Buffer α) :
    b.copy.storage.slots = if Element.isZeroSized α = true then slotLimit else b.size := rfl

/-- A full buffer is grown before the push. -/
theorem readied_of_full (h : b.size = b.capacity) : b.readied = b.grow :=
  if_pos (decide_eq_true h)

/-- A buffer with room in its capacity is pushed to as it is, whatever its storage holds. -/
theorem readied_of_free (h : b.size ≠ b.capacity) : b.readied = b := by
  rw [readied, if_neg]
  simpa [isFull] using h

@[simp] theorem size_grow (b : Buffer α) : b.grow.size = b.size :=
  congrArg Array.size (toArray_grow b)

@[simp] theorem size_readied (b : Buffer α) : b.readied.size = b.size := by
  unfold readied
  split
  · exact size_grow b
  · rfl

/-- Putting the element in takes memory where the readied buffer has no free slot. -/
theorem overflows_iff (b : Buffer α) : b.overflows = true ↔ b.readied.storage.slots ≤ b.size := by
  rw [← size_readied b, overflows, Storage.isFull, decide_eq_true_eq]
  rfl

/-- There is a slot for every element once one has been appended. -/
theorem size_le_slots_append (b : Buffer α) (a : α) :
    (b.append a).size ≤ (b.append a).storage.slots := by
  rw [size_append, append_eq_push, slots_push, size_readied]
  split
  · exact (Element.onPush α).needed_le _ _
  · omega

/-! ## A slot for every element -/

/-- What any operations keep: the capacity is told by the size, there is a slot for every element, and
elements that take no room have all the slots there can be. -/
structure IsHoused (b : Buffer α) : Prop where
  snug : b.IsSnug
  size_le : b.size ≤ b.storage.slots
  unsized : Element.isZeroSized α = true → b.storage.slots = slotLimit

namespace IsHoused

/-- A buffer lacks slots for its next capacity if it has fewer than that. -/
theorem lacks_iff (h : b.IsHoused) :
    b.storage.lacks b.shortage = true ↔ b.storage.slots < growCapacity b.capacity := by
  have hsize : b.storage.size = b.size := rfl
  have hle := h.size_le
  have hshortage := h.snug.size_add_shortage
  rw [Storage.lacks, decide_eq_true_eq, hsize]
  omega

/-- A buffer that has grown has slots for all of its capacity. -/
theorem growCapacity_le_slots_grow (h : b.IsHoused) :
    growCapacity b.capacity ≤ b.grow.storage.slots := by
  rw [Buffer.slots_grow]
  by_cases hlacks : b.storage.lacks b.shortage = true
  · rw [if_pos hlacks, ← h.snug.size_add_shortage]
    exact (Element.onRequest α).needed_le _ _
  · rw [if_neg hlacks]
    exact Nat.not_lt.mp (mt h.lacks_iff.mpr hlacks)

/-- **Memory nobody is asked about is taken where there is room left and no slot**: a full buffer
has all the slots of its next capacity before the element is put in. -/
theorem overflows_iff (h : b.IsHoused) (hroom : b.size < slotLimit) :
    b.overflows = true ↔ b.size < b.capacity ∧ b.storage.slots = b.size := by
  rw [Buffer.overflows_iff]
  by_cases hfull : b.size = b.capacity
  · have hslots := h.growCapacity_le_slots_grow
    have hgrow : b.size < growCapacity b.capacity := hfull ▸ lt_growCapacity hroom
    rw [readied_of_full hfull]
    constructor
    · intro hle
      omega
    · intro hfree
      omega
  · have hsize : b.size ≤ b.capacity := h.snug.size_le
    have hslots : b.size ≤ b.storage.slots := h.size_le
    rw [readied_of_free hfull]
    constructor
    · intro hle
      exact ⟨by omega, by omega⟩
    · intro hfree
      omega

/-- Elements that take no room keep all their slots when a buffer grows. -/
theorem slots_readied_of_unsized (h : b.IsHoused) (hunsized : Element.isZeroSized α = true) :
    b.readied.storage.slots = slotLimit := by
  have hslots := h.unsized hunsized
  have hlimit := growCapacity_le b.capacity
  by_cases hfull : b.size = b.capacity
  · rw [readied_of_full hfull, Buffer.slots_grow, if_neg, hslots]
    rw [h.lacks_iff]
    omega
  · rw [readied_of_free hfull, hslots]

/-- A buffer without capacity needs no slot. -/
theorem empty : (empty : Buffer α).IsHoused where
  snug := .empty
  size_le := Nat.zero_le _
  unsized hunsized := by
    show Storage.slotsFor α 0 = slotLimit
    rw [Storage.slotsFor, if_pos hunsized]

/-- Appending gives the new element its slot, in the growth or in the push. -/
theorem append (h : b.IsHoused) (hroom : b.size < slotLimit) (a : α) : (b.append a).IsHoused where
  snug := h.snug.append hroom a
  size_le := size_le_slots_append b a
  unsized hunsized := by
    have hslots := h.slots_readied_of_unsized hunsized
    rw [append_eq_push, slots_push, size_readied, if_neg (by omega), hslots]

/-- A copy has slots for the elements it holds. -/
theorem copy (h : b.IsHoused) : b.copy.IsHoused where
  snug := h.snug
  size_le := by
    have hsize : b.size ≤ b.capacity := h.snug.size_le
    have hlimit : b.capacity ≤ slotLimit := h.snug.1.1.le_slotLimit
    show b.size ≤ b.copy.storage.slots
    rw [slots_copy]
    split
    · omega
    · exact le_rfl
  unsized hunsized := by rw [slots_copy, if_pos hunsized]

/-- Every operation keeps a slot for each element, so all buffers that are made have them. -/
theorem isKept : IsKept (IsHoused : Buffer α → Prop) where
  empty := empty
  append h := h.append
  copy h := h.copy

/-- **What comes of an append that accepts a refusal.** If memory is not granted it is refused to a full
buffer that has fewer slots than its next capacity, and the program ends where there is room left and
no slot. In every other case the element is appended. -/
theorem offer_eq (h : b.IsHoused) (hroom : b.size < slotLimit) (granted : Bool) (a : α) :
    b.offer granted a =
      if b.size = b.capacity ∧ b.storage.slots < growCapacity b.capacity ∧ granted = false then
        .refused (.allocation (growCapacity b.capacity))
      else if b.size < b.capacity ∧ b.storage.slots = b.size ∧ granted = false then .aborted
      else .accepted (b.append a) := by
  have hisFull : b.isFull = true ↔ b.size = b.capacity := decide_eq_true_iff
  rw [offer_eq_ite]
  simp only [hisFull, h.lacks_iff, h.overflows_iff hroom, and_assoc]

end IsHoused

/-! ## Exactly as many slots as asked for -/

/-- The slots of a buffer with a capacity that can still grow: fewer than the next capacity, unless
they cost nothing. -/
structure IsThrifty (b : Buffer α) : Prop where
  housed : b.IsHoused
  sized : Element.isZeroSized α = false → b.capacity < slotLimit →
    b.storage.slots < growCapacity b.capacity

namespace IsThrifty

theorem empty : (empty : Buffer α).IsThrifty where
  housed := .empty
  sized hsized _ := by
    show Storage.slotsFor α 0 < growCapacity 0
    rw [Storage.slotsFor, hsized]
    decide

/-- Where slots are given exactly an append leaves fewer of them than the next capacity counts. -/
theorem append (hexact : Element.IsExact α) (h : b.IsThrifty) (hroom : b.size < slotLimit) (a : α) :
    (b.append a).IsThrifty := by
  refine ⟨h.housed.append hroom a, ?_⟩
  intro hsized hlimit
  by_cases hfull : b.size = b.capacity
  · -- The storage has the slots of the next capacity, and one of them is taken.
    have happend : b.append a = b.grow.push a := if_pos (decide_eq_true hfull)
    have hgrow : b.size < growCapacity b.capacity := hfull ▸ lt_growCapacity hroom
    have hlacks := h.housed.lacks_iff.mpr (h.sized hsized (hfull ▸ hroom))
    have hslots : b.grow.storage.slots = growCapacity b.capacity := by
      rw [slots_grow, if_pos hlacks, hexact.onRequest, h.housed.snug.size_add_shortage]
    rw [happend, capacity_push, capacity_grow] at hlimit ⊢
    rw [slots_push, size_grow, hslots, if_neg (by omega)]
    exact lt_growCapacity hlimit
  · -- The storage may double itself, but it has no more slots than elements then.
    have happend : b.append a = b.push a := if_neg (by simpa [isFull] using hfull)
    have hlt : b.size < b.capacity := Nat.lt_of_le_of_ne h.housed.snug.size_le hfull
    rw [happend, capacity_push] at hlimit ⊢
    have hslots := h.sized hsized hlimit
    have hleast := h.housed.snug.1.1.minCapacity_le (by omega)
    have htwice := h.housed.snug.1.1.two_mul_le hlimit
    have hdouble := hexact.onPush b.storage.slots (b.size + 1)
    rw [slots_push]
    split
    · unfold growCapacity minCapacity at *
      omega
    · exact hslots

theorem copy (h : b.IsThrifty) : b.copy.IsThrifty where
  housed := h.housed.copy
  sized hsized hlimit := by
    rw [slots_copy, if_neg (by simp [hsized])]
    exact Nat.lt_of_le_of_lt h.housed.snug.size_le (lt_growCapacity hlimit)

/-- Where slots are given exactly, every operation leaves fewer of them than the next capacity
counts. -/
theorem isKept (hexact : Element.IsExact α) : IsKept (IsThrifty : Buffer α → Prop) where
  empty := empty
  append h := h.append hexact
  copy h := h.copy

/-- **What comes of an append while memory is refused**, where slots are given exactly: a full buffer is
refused, one with a free slot takes the element, and there is no way back if there is room but no
slot. -/
theorem offer_eq (h : b.IsThrifty) (hsized : Element.isZeroSized α = false)
    (hroom : b.size < slotLimit) (a : α) :
    b.offer false a =
      if b.size = b.capacity then .refused (.allocation (growCapacity b.capacity))
      else if b.storage.slots = b.size then .aborted
      else .accepted (b.append a) := by
  rw [h.housed.offer_eq hroom]
  by_cases hfull : b.size = b.capacity
  · have hslots := h.sized hsized (hfull ▸ hroom)
    rw [if_pos ⟨hfull, hslots, rfl⟩, if_pos hfull]
  · have hfree : b.size < b.capacity := Nat.lt_of_le_of_ne h.housed.snug.size_le hfull
    rw [if_neg fun hall => hfull hall.1, if_neg hfull]
    simp only [hfree, true_and, and_true]

end IsThrifty

end Buffer

end ScriptFront
