/-
Append-only buffers with a capacity of their own.

A buffer advertises a capacity, which it keeps apart from the slots that its
storage happens to have. The capacity changes only when a buffer is full and
one more element comes: it doubles, starts at eight and stops at the limit of
what can be counted (`growCapacity`).

There are two ways of appending: `append` takes memory for granted, `offer` accepts
a refusal. In both a buffer that is full asks for the memory of its next capacity
first, and only this request can be refused with a fault. Putting the element into
a storage without a free slot takes memory too, and there is no answer for a
refusal of that: the program is at its end (`Outcome.aborted`).
-/
import ScriptFront.Buffer.Storage
import ScriptFront.StorageFault

set_option autoImplicit false

namespace ScriptFront

/-! ## The capacity -/

/-- The capacity after the first growth. -/
def minCapacity : Nat := 8

/-- The capacity that follows: twice as much, but at least the least one and at
most the limit. -/
def growCapacity (capacity : Nat) : Nat := max minCapacity (min (2 * capacity) slotLimit)

/-! ## Buffers -/

/-- Elements in the order they were appended, and a capacity. -/
structure Buffer (α : Type) where
  storage : Storage α
  capacity : Nat

/-- An index at which there is no element. -/
structure OutOfBounds where
  size : Nat
  index : Nat
deriving DecidableEq, Repr

/-- The failed access in words. -/
def OutOfBounds.message (e : OutOfBounds) : String :=
  "index out of bounds: the len is " ++ toString e.size ++ " but the index is "
    ++ toString e.index

namespace Buffer

variable {α : Type}

/-- A buffer without elements and without capacity. -/
def empty [Element α] : Buffer α := { storage := .empty, capacity := 0 }

instance [Element α] : Inhabited (Buffer α) := ⟨empty⟩

/-- The elements, oldest first. -/
def toArray (b : Buffer α) : Array α := b.storage.items

/-- The elements, oldest first. -/
def toList (b : Buffer α) : List α := b.toArray.toList

/-- The number of elements. -/
def size (b : Buffer α) : Nat := b.storage.size

/-- Whether there is no element. -/
def isEmpty (b : Buffer α) : Bool := b.size = 0

/-- Whether the next element needs a greater capacity. -/
def isFull (b : Buffer α) : Bool := b.size = b.capacity

/-- How many slots have to be added for the next capacity. -/
def shortage (b : Buffer α) : Nat := growCapacity b.capacity - b.size

/-! ## Appending -/

/-- What can come of an append that accepts a refusal. -/
inductive Outcome (α : Type) where
  | accepted (b : Buffer α)
  | refused (fault : StorageFault)
  -- Memory was refused that nobody was asked about, and the program is at its end.
  | aborted

section Appending

variable [Element α]

/-- The buffer with its next capacity, and memory for it. -/
def grow (b : Buffer α) : Buffer α where
  storage := b.storage.reserve b.shortage
  capacity := growCapacity b.capacity

/-- One more element, where the storage gets more slots by itself if it has to. -/
def push (b : Buffer α) (a : α) : Buffer α := { b with storage := b.storage.push a }

/-- One more element, in a buffer that has grown first if it was full. -/
def append (b : Buffer α) (a : α) : Buffer α :=
  if b.isFull then b.grow.push a else b.push a

/-- The buffer that an element can be put into: grown if it was full, unless the memory that the
next capacity needs is not granted. -/
def makeRoom? (granted : Bool) (b : Buffer α) : Except StorageFault (Buffer α) :=
  if b.isFull then
    if b.storage.lacks b.shortage && !granted then .error (.allocation (growCapacity b.capacity))
    else .ok b.grow
  else .ok b

/-- One more element, unless the storage is full and the memory it needs is not granted. -/
def push? (granted : Bool) (b : Buffer α) (a : α) : Option (Buffer α) :=
  if b.storage.isFull && !granted then none else some (b.push a)

/-- One more element, where memory is either granted during the whole call or refused. -/
def offer (granted : Bool) (b : Buffer α) (a : α) : Outcome α :=
  match b.makeRoom? granted with
  | .error fault => .refused fault
  | .ok roomy =>
    match roomy.push? granted a with
    | some b' => .accepted b'
    | none => .aborted

/-- What `offer` comes to where the request for the next capacity alone can be refused, because a
full storage is always granted what it takes by itself. -/
def append? (granted : Bool) (b : Buffer α) (a : α) : Except StorageFault (Buffer α) :=
  (b.makeRoom? granted).map fun roomy => roomy.push a

/-- More elements, in their order. -/
def extend (b : Buffer α) (as : List α) : Buffer α := as.foldl append b

end Appending

/-! ## Releasing, copying and reading -/

/-- The buffer without its elements, its memory and its capacity. -/
def release [Element α] (_ : Buffer α) : Buffer α := empty

/-- The same elements and capacity in memory of their own. -/
def copy [Element α] (b : Buffer α) : Buffer α := { b with storage := b.storage.copy }

/-- The element at an index, if there is one. -/
def get? (b : Buffer α) (i : Nat) : Option α := b.toArray[i]?

/-- The element at an index, or the failed access. -/
def get (b : Buffer α) (i : Nat) : Except OutOfBounds α :=
  match b.get? i with
  | some a => .ok a
  | none => .error { size := b.size, index := i }

/-- The element appended last, if any. -/
def last? (b : Buffer α) : Option α := b.toArray.back?

/-- Whether two buffers have the same capacity and, by `eq`, the same elements. -/
def equal (eq : α → α → Bool) (a b : Buffer α) : Bool :=
  a.capacity = b.capacity && a.toArray.isEqv b.toArray eq

/-! ## The elements after each operation -/

@[simp] theorem toArray_empty [Element α] : (empty : Buffer α).toArray = #[] := rfl

@[simp] theorem toArray_grow [Element α] (b : Buffer α) : b.grow.toArray = b.toArray := by
  simp [grow, toArray]

@[simp] theorem toArray_push [Element α] (b : Buffer α) (a : α) :
    (b.push a).toArray = b.toArray.push a := rfl

@[simp] theorem toArray_append [Element α] (b : Buffer α) (a : α) :
    (b.append a).toArray = b.toArray.push a := by
  unfold append
  split <;> simp

@[simp] theorem toArray_release [Element α] (b : Buffer α) : b.release.toArray = #[] := rfl

@[simp] theorem toArray_copy [Element α] (b : Buffer α) : b.copy.toArray = b.toArray := rfl

@[simp] theorem toList_append [Element α] (b : Buffer α) (a : α) :
    (b.append a).toList = b.toList ++ [a] := by
  simp [toList]

@[simp] theorem toList_extend [Element α] (b : Buffer α) (as : List α) :
    (b.extend as).toList = b.toList ++ as := by
  unfold extend
  induction as generalizing b with
  | nil => simp
  | cons a as ih => simp [ih]

/-! ## The capacity after each operation -/

@[simp] theorem capacity_push [Element α] (b : Buffer α) (a : α) :
    (b.push a).capacity = b.capacity := rfl

@[simp] theorem capacity_grow [Element α] (b : Buffer α) :
    b.grow.capacity = growCapacity b.capacity := rfl

@[simp] theorem capacity_copy [Element α] (b : Buffer α) : b.copy.capacity = b.capacity := rfl

end Buffer

end ScriptFront
