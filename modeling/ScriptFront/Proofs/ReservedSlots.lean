/-
The slots behind a capacity.

A capacity is a number that a buffer advertises, and the slots are what its storage has. A buffer
that grows asks for as many slots as its next capacity at least, and while it has them an element is
put in without more memory. Empty buffers, appending and growing keep the slots as many as the
capacity (`Buffer.IsReserved.append`). A copy does not: it takes the capacity over and has slots for
the elements alone, so the copy of a buffer with room left advertises slots that nobody has asked for
(`Buffer.IsHoused.isReserved_copy_iff`).

Putting an element into a storage without a free slot takes memory that is not asked about, also in
an append that accepts a refusal. If that memory is refused there is nothing to come back with
(`Buffer.Outcome.aborted`). Right after a copy with room left this is what happens, and as long as
only full buffers are copied it never does, however many slots more memory brings.
-/
import Mathlib.Data.List.Induction
import Mathlib.Data.List.Infix
import ScriptFront.Proofs.AppendOutcomes

set_option autoImplicit false

namespace ScriptFront.Buffer

variable {α : Type}

/-! ## Reserved slots -/

/-- The slots reach as far as the capacity. -/
def IsReserved (b : Buffer α) : Prop := b.capacity ≤ b.storage.slots

instance (b : Buffer α) : Decidable b.IsReserved :=
  inferInstanceAs (Decidable (b.capacity ≤ b.storage.slots))

variable [Element α] {b : Buffer α}

namespace IsHoused

/-- A buffer with room left holds something: without elements it has no capacity. -/
theorem size_pos (h : b.IsHoused) (hfree : b.size < b.capacity) : 0 < b.size := by
  by_contra hnone
  have hzero : b.size = 0 := by omega
  have hleast : b.capacity ≤ 0 := h.snug.2 ⟨.zero, Nat.le_of_eq hzero⟩
  omega

/-- A buffer with room left holds less than can be counted. -/
theorem size_lt (h : b.IsHoused) (hfree : b.size < b.capacity) : b.size < slotLimit :=
  hfree.trans_le h.snug.1.1.le_slotLimit

/-- The program ends where putting the element in takes memory. -/
theorem offer_eq_aborted_iff (h : b.IsHoused) (hroom : b.size < slotLimit) (a : α) :
    b.offer false a = .aborted ↔ b.overflows = true := by
  rw [h.offer_eq hroom, h.overflows_iff hroom]
  by_cases hfree : b.size < b.capacity ∧ b.storage.slots = b.size
  · rw [if_neg (by omega), if_pos ⟨hfree.1, hfree.2, rfl⟩]
    exact iff_of_true rfl hfree
  · have hspared : ¬(b.size < b.capacity ∧ b.storage.slots = b.size ∧ false = false) :=
      fun hall => hfree ⟨hall.1, hall.2.1⟩
    rw [if_neg hspared]
    refine iff_of_false ?_ hfree
    split
    · simp
    · simp

/-- A copy is reserved exactly if the buffer was full. -/
theorem isReserved_copy_iff (h : b.IsHoused) (hsized : Element.isZeroSized α = false) :
    b.copy.IsReserved ↔ b.size = b.capacity := by
  have hsize : b.size ≤ b.capacity := h.snug.size_le
  rw [IsReserved, capacity_copy, slots_copy, if_neg (by simp [hsized])]
  omega

/-- Right after a copy of a buffer with room left, putting an element in takes memory. -/
theorem overflows_copy (h : b.IsHoused) (hsized : Element.isZeroSized α = false)
    (hfree : b.size < b.capacity) : b.copy.overflows = true := by
  have hroom : b.copy.size < slotLimit := h.size_lt hfree
  rw [h.copy.overflows_iff hroom, slots_copy, if_neg (by simp [hsized]), capacity_copy]
  exact ⟨hfree, rfl⟩

end IsHoused

namespace IsReserved

theorem empty : (empty : Buffer α).IsReserved := Nat.zero_le _

/-- **Appending keeps the slots as many as the capacity**, whether the buffer grows or not. -/
theorem append (hreserved : b.IsReserved) (h : b.IsHoused) (hroom : b.size < slotLimit) (a : α) :
    (b.append a).IsReserved := by
  have hsize : b.size ≤ b.capacity := h.snug.size_le
  unfold IsReserved at *
  rw [append_eq_push, capacity_push, slots_push, size_readied]
  by_cases hfull : b.size = b.capacity
  · have hslots := h.growCapacity_le_slots_grow
    have hgrow : b.size < growCapacity b.capacity := hfull ▸ lt_growCapacity hroom
    rw [readied_of_full hfull, capacity_grow, if_neg (by omega)]
    exact hslots
  · rw [readied_of_free hfull, if_neg (by omega)]
    exact hreserved

/-- Appending several elements keeps the slots as many as the capacity. -/
theorem extend (hreserved : b.IsReserved) (h : b.IsHoused) (as : List α)
    (hroom : b.size + as.length ≤ slotLimit) : (b.extend as).IsReserved := by
  induction as generalizing b with
  | nil => exact hreserved
  | cons a as ih =>
    rw [List.length_cons] at hroom
    have hone : b.size < slotLimit := by omega
    apply ih (hreserved.append h hone a) (h.append hone a)
    rw [size_append]
    omega

/-- One operation keeps the slots as many as the capacity, if it does not copy a buffer with room
left. -/
theorem run (hreserved : b.IsReserved) (h : b.IsHoused) (hsized : Element.isZeroSized α = false)
    {op : Op α} (hfits : op.Fits b) (hcopy : op = .copy → b.size = b.capacity) :
    (op.run b).IsReserved := by
  cases op with
  | renew => exact empty
  | append a => exact hreserved.append h hfits a
  | offer granted a =>
    rw [Op.run]
    cases houtcome : b.offer granted a with
    | accepted b' =>
      rw [eq_append_of_offer houtcome]
      exact hreserved.append h hfits a
    | refused fault => exact hreserved
    | aborted => exact hreserved
  | extend as => exact hreserved.extend h as hfits
  | release => exact empty
  | copy => exact (h.isReserved_copy_iff hsized).mpr (hcopy rfl)

/-- A buffer with its slots reserved has one for the next element. -/
theorem not_overflows (hreserved : b.IsReserved) (h : b.IsHoused) (hroom : b.size < slotLimit) :
    ¬ b.overflows = true := by
  rw [h.overflows_iff hroom]
  unfold IsReserved at hreserved
  omega

end IsReserved

/-! ## At every moment of a run -/

/-- Whenever a buffer is copied in a run it has no room left. -/
def CopiesFull (b : Buffer α) (ops : List (Op α)) : Prop :=
  ∀ made, made ++ [.copy] <+: ops → (b.after made).size = (b.after made).capacity

theorem after_concat (b : Buffer α) (ops : List (Op α)) (op : Op α) :
    b.after (ops ++ [op]) = op.run (b.after ops) := by
  simp [after]

/-- A run followed by an append fits if the run does and one more element does. -/
theorem fits_append (b : Buffer α) (ops ops' : List (Op α)) :
    b.Fits (ops ++ ops') ↔ b.Fits ops ∧ (b.after ops).Fits ops' := by
  induction ops generalizing b with
  | nil => simp [Fits, after]
  | cons op ops ih =>
    rw [List.cons_append, Fits, Fits, ih, and_assoc]
    rfl

/-- What fits in a whole run fits in each part that it begins with. -/
theorem Fits.of_part {made ops : List (Op α)} (h : b.Fits ops) (hmade : made <+: ops) :
    b.Fits made := by
  obtain ⟨rest, rfl⟩ := hmade
  exact ((fits_append b made rest).mp h).1

/-- After any operations there is a slot for every element. -/
theorem IsHoused.of_part {made ops : List (Op α)} (hfits : Fits Buffer.empty ops)
    (hmade : made <+: ops) : ((Buffer.empty : Buffer α).after made).IsHoused :=
  isKept.after .empty (hfits.of_part hmade)

/-- As long as only full buffers are copied the slots are as many as the capacity. -/
theorem IsReserved.of_copiesFull (hsized : Element.isZeroSized α = false) {ops : List (Op α)}
    (hfits : Fits Buffer.empty ops) (hcopies : CopiesFull Buffer.empty ops) (made : List (Op α))
    (hmade : made <+: ops) : ((Buffer.empty : Buffer α).after made).IsReserved := by
  induction made using List.reverseRecOn with
  | nil => exact empty
  | append_singleton made op ih =>
    have hbefore : made <+: ops := (List.prefix_append made [op]).trans hmade
    have hboth := (fits_append _ _ _).mp (hfits.of_part hmade)
    rw [after_concat]
    apply (ih hbefore).run (.of_part hfits hbefore) hsized hboth.2.1
    intro hop
    subst hop
    exact hcopies made hmade

/-- What fails for the copy of a buffer with room left holds at every moment of a run only if
no such buffer is copied. -/
theorem copiesFull_of_forall {p : Buffer α → Prop} {ops : List (Op α)} (hfits : Fits empty ops)
    (hfails : ∀ b : Buffer α, b.IsHoused → b.size < b.capacity → ¬ p b.copy)
    (hall : ∀ made, made <+: ops → p ((empty : Buffer α).after made)) :
    CopiesFull (empty : Buffer α) ops := by
  intro made hmade
  have hhoused : ((empty : Buffer α).after made).IsHoused :=
    .of_part hfits ((List.prefix_append made [.copy]).trans hmade)
  have hcopied := hall (made ++ [.copy]) hmade
  rw [after_concat] at hcopied
  by_contra hshort
  apply hfails _ hhoused _ hcopied
  exact Nat.lt_of_le_of_ne hhoused.snug.size_le hshort

/-- **The capacity is reserved as long as only full buffers are copied.** Elements take room, memory
brings as many slots as are needed or more, and any operations are made one after another, beginning
with an empty buffer. Then these say the same: the slots are as many as the capacity at every moment;
an element is never put in without a free slot; no append that accepts a refusal ends the program
while memory is refused; and no buffer with room left is copied. What such an append comes to at a
moment is told by the state alone. Where slots are given exactly a full buffer is refused, whatever
slots it has. -/
theorem reserved_iff_copiesFull (hsized : Element.isZeroSized α = false) (ops : List (Op α))
    (hfits : Fits empty ops) :
    ((∀ made, made <+: ops → ((empty : Buffer α).after made).IsReserved) ↔
        CopiesFull (empty : Buffer α) ops) ∧
      ((∀ made, made <+: ops → ((empty : Buffer α).after made).size < slotLimit →
          ((empty : Buffer α).after made).overflows = false) ↔
        CopiesFull (empty : Buffer α) ops) ∧
      ((∀ made, made <+: ops → ((empty : Buffer α).after made).size < slotLimit →
          ∀ a, ((empty : Buffer α).after made).offer false a ≠ .aborted) ↔
        CopiesFull (empty : Buffer α) ops) ∧
      ∀ made, made <+: ops →
        let b := (empty : Buffer α).after made
        b.size ≤ b.storage.slots ∧
          (b.size < slotLimit → ∀ a, b.offer false a =
            if b.size = b.capacity ∧ b.storage.slots < growCapacity b.capacity then
              .refused (.allocation (growCapacity b.capacity))
            else if b.size < b.capacity ∧ b.storage.slots = b.size then .aborted
            else .accepted (b.append a)) ∧
          (Element.IsExact α → b.size < slotLimit → ∀ a, b.offer false a =
            if b.size = b.capacity then .refused (.allocation (growCapacity b.capacity))
            else if b.storage.slots = b.size then .aborted
            else .accepted (b.append a)) := by
  have hspares : CopiesFull (empty : Buffer α) ops → ∀ made, made <+: ops →
      ((empty : Buffer α).after made).size < slotLimit →
        ((empty : Buffer α).after made).overflows = false := by
    intro hcopies made hmade hroom
    have hreserved := IsReserved.of_copiesFull hsized hfits hcopies made hmade
    simpa using hreserved.not_overflows (.of_part hfits hmade) hroom
  refine ⟨⟨?_, ?_⟩, ⟨?_, hspares⟩, ⟨?_, ?_⟩, ?_⟩
  · apply copiesFull_of_forall hfits
    intro b hb hshort hreserved
    have hfull := (hb.isReserved_copy_iff hsized).mp hreserved
    omega
  · intro hcopies
    exact IsReserved.of_copiesFull hsized hfits hcopies
  · apply copiesFull_of_forall (p := fun b => b.size < slotLimit → b.overflows = false) hfits
    intro b hb hshort hspare
    have htakes : b.copy.overflows = true := hb.overflows_copy hsized hshort
    rw [hspare (hb.size_lt hshort)] at htakes
    contradiction
  · apply copiesFull_of_forall
      (p := fun b => b.size < slotLimit → ∀ a, b.offer false a ≠ .aborted) hfits
    intro b hb hshort hreturns
    have hroom : b.copy.size < slotLimit := hb.size_lt hshort
    -- A buffer with room left holds an element, which is one that can be appended.
    have hfirst : 0 < b.toArray.size := hb.size_pos hshort
    apply hreturns hroom b.toArray[0]
    rw [hb.copy.offer_eq_aborted_iff hroom]
    exact hb.overflows_copy hsized hshort
  · intro hcopies made hmade hroom a
    rw [Ne, (IsHoused.of_part hfits hmade).offer_eq_aborted_iff hroom,
      hspares hcopies made hmade hroom]
    exact Bool.noConfusion
  · intro made hmade b
    have hb : b.IsHoused := .of_part hfits hmade
    refine ⟨hb.size_le, ?_, ?_⟩
    · intro hroom a
      simpa using hb.offer_eq hroom false a
    · intro hexact hroom a
      have hthrifty : b.IsThrifty := (IsThrifty.isKept hexact).after .empty (hfits.of_part hmade)
      exact hthrifty.offer_eq hsized hroom a

/-- A full copy that goes on growing has its slots, and the copy of a buffer with one element in
eight places has not. -/
theorem reserved_iff_copiesFull_mixed :
    let ops : List (Op Nat) := [.extend (List.range 8), .copy, .append 8, .offer false 9]
    let ops' : List (Op Nat) := [.extend [1], .release, .extend [2], .copy]
    let full := (empty : Buffer Nat).after [.extend (List.range 8), .copy]
    let b := (empty : Buffer Nat).after ops
    Element.isZeroSized Nat = false ∧ Element.IsExact Nat ∧ Fits empty ops ∧ Fits empty ops' ∧
      CopiesFull (empty : Buffer Nat) ops ∧ ¬ CopiesFull (empty : Buffer Nat) ops' ∧
      (full.size < slotLimit ∧ full.offer false 8 = .refused (.allocation 16)) ∧
      (b.size < slotLimit ∧ b.overflows = false ∧ b.offer false 10 ≠ .aborted ∧
        b.offer false 10 = .accepted (b.append 10)) := by
  intro ops ops' full b
  have hsized : Element.isZeroSized Nat = false := rfl
  have hexact : Element.IsExact Nat := Element.isExact_default Nat
  have hfits : Fits empty ops := by decide
  have hfits' : Fits empty ops' := by decide
  have hroom : b.size < slotLimit := by decide
  obtain ⟨hslots, hspares, hreturns, hoffer⟩ := reserved_iff_copiesFull hsized ops hfits
  have hreserved : ∀ made ∈ ops.inits, ((empty : Buffer Nat).after made).IsReserved := by decide
  have hcopies : CopiesFull empty ops := by
    apply hslots.mp
    intro made hmade
    exact hreserved made ((List.mem_inits made ops).mpr hmade)
  have hshort : ¬ CopiesFull empty ops' := by
    intro hcopies'
    have hall := (reserved_iff_copiesFull hsized ops' hfits').1.mpr hcopies' ops' List.prefix_rfl
    exact absurd hall (by decide)
  have hroomFull : full.size < slotLimit := by decide
  have hpart : [.extend (List.range 8), .copy] <+: ops := ⟨[.append 8, .offer false 9], rfl⟩
  have hrefused := (hoffer _ hpart).2.2 hexact hroomFull 8
  rw [if_pos (by decide)] at hrefused
  have haccepted := (hoffer ops List.prefix_rfl).2.1 hroom 10
  rw [if_neg (by decide), if_neg (by decide)] at haccepted
  exact ⟨hsized, hexact, hfits, hfits', hcopies, hshort, ⟨hroomFull, hrefused⟩, hroom,
    hspares.mpr hcopies ops List.prefix_rfl hroom,
    hreturns.mpr hcopies ops List.prefix_rfl hroom 10, haccepted⟩

/-- **Not every capacity is reserved.** One element is appended and the buffer is copied: the copy
advertises eight slots and has one, which is taken. The next element needs memory, and an append
that accepts a refusal ends the program if it is refused. -/
theorem copy_not_reserved :
    let ops : List (Op Nat) := [.append 1, .copy]
    let b := (empty : Buffer Nat).after ops
    Element.isZeroSized Nat = false ∧ Fits empty ops ∧ b.size = 1 ∧ b.capacity = 8 ∧
      b.storage.slots = 1 ∧ ¬ b.IsReserved ∧ b.overflows = true ∧ b.offer false 2 = .aborted := by
  intro ops b
  refine ⟨rfl, by decide, rfl, rfl, rfl, by decide, by decide, rfl⟩

end ScriptFront.Buffer
