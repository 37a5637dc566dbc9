/-
The memory behind a buffer.

A storage holds elements in order and has slots for a number of them. More slots are obtained in
two ways: by a request for room, and by putting an element into a full storage, which gets more
by itself. Either way there are at least as many as were needed, and how many there are exactly
is not up to the storage (`Growth`). A copy has slots for its elements and for no more. Elements
that take no room never need a request: a storage of such elements has all the slots that can be
counted from the start.
-/

set_option autoImplicit false

namespace ScriptFront

/-- The greatest number of slots that can be counted. -/
def slotLimit : Nat := 0xFFFFFFFFFFFFFFFF

/-! ## How slots are obtained -/

/-- How many slots there are after more memory has been obtained, by the slots there were and the
slots that are needed. There may be more than needed, and never fewer. -/
structure Growth where
  slots : (present needed : Nat) → Nat
  needed_le : ∀ present needed, needed ≤ slots present needed

namespace Growth

/-- As many slots as are needed. -/
def exact : Growth where
  slots _ needed := needed
  needed_le _ _ := Nat.le_refl _

/-- Twice as many slots as there were, four at least, unless more are needed. -/
def doubling : Growth where
  slots present needed := max (max 4 (2 * present)) needed
  needed_le _ _ := Nat.le_max_right _ _

end Growth

/-- What a storage has to know about the type of its elements: whether they take no room, and how
it gets slots for them when it is asked for room and when it is full. -/
class Element (α : Type) where
  isZeroSized : Bool := false
  onRequest : Growth := .exact
  onPush : Growth := .doubling

instance (priority := low) defaultElement {α : Type} : Element α := {}

instance unitElement : Element Unit where
  isZeroSized := true

/-! ## Storages -/

/-- Elements in order, and the number of slots there are for them. -/
structure Storage (α : Type) where
  items : Array α
  slots : Nat

namespace Storage

variable {α : Type}

/-- The slots of a storage that has been given room for `n` elements and no more. -/
def slotsFor (α : Type) [Element α] (n : Nat) : Nat :=
  if Element.isZeroSized α then slotLimit else n

/-- A storage without elements, for which no memory has been obtained. -/
def empty [Element α] : Storage α := { items := #[], slots := slotsFor α 0 }

/-- The number of elements. -/
def size (s : Storage α) : Nat := s.items.size

/-- Whether one more element needs more memory. -/
def isFull (s : Storage α) : Bool := s.slots ≤ s.size

/-- Whether room for `n` more elements needs more memory. -/
def lacks (s : Storage α) (n : Nat) : Bool := s.slots - s.size < n

variable [Element α]

/-- Room for `n` more elements, if there is none yet. -/
def reserve (s : Storage α) (n : Nat) : Storage α :=
  if s.lacks n then { s with slots := (Element.onRequest α).slots s.slots (s.size + n) } else s

/-- One more element, in a storage that has got more slots first if it was full. -/
def push (s : Storage α) (a : α) : Storage α :=
  let slots := if s.isFull then (Element.onPush α).slots s.slots (s.size + 1) else s.slots
  { items := s.items.push a, slots }

/-- The same elements in memory of their own. -/
def copy (s : Storage α) : Storage α := { s with slots := slotsFor α s.size }

@[simp] theorem items_empty : (empty : Storage α).items = #[] := rfl

@[simp] theorem items_reserve (s : Storage α) (n : Nat) : (s.reserve n).items = s.items := by
  unfold reserve
  split <;> rfl

@[simp] theorem items_push (s : Storage α) (a : α) : (s.push a).items = s.items.push a := rfl

@[simp] theorem items_copy (s : Storage α) : s.copy.items = s.items := rfl

end Storage

end ScriptFront
