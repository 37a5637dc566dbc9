/-
Byte offsets and half-open byte ranges of a source text.

An offset is a 32-bit word, so a text longer than `2 ^ 32 - 1` bytes has
positions that no offset can name. `Offset.ofNat` sends all of those to the
last offset: it saturates and never wraps, so offsets taken along a text never
decrease, and below the limit they are exact (`Offset.toNat_ofNat`).
-/

set_option autoImplicit false

namespace ScriptFront

/-! ## Offsets -/

/-- A byte offset into a source text. -/
structure Offset where
  bytes : UInt32
deriving DecidableEq, Repr

namespace Offset

/-- The last position an offset can name; later ones are taken for it. -/
def last : Nat := 0xFFFFFFFF

/-- The offset of a position, saturated at `last`. -/
def ofNat (n : Nat) : Offset := ⟨UInt32.ofNat (min n last)⟩

/-- The position as a natural number. -/
def toNat (o : Offset) : Nat := o.bytes.toNat

/-- The offset of the first byte. -/
def zero : Offset := ⟨0⟩

instance : Inhabited Offset := ⟨zero⟩

/-- Offsets are ordered as the positions they name. -/
instance : Ord Offset where
  compare a b := compare a.toNat b.toNat

@[simp] theorem toNat_ofNat (n : Nat) : (ofNat n).toNat = min n last := by
  simp only [toNat, ofNat, last, UInt32.toNat_ofNat']
  omega

theorem toNat_le_last (o : Offset) : o.toNat ≤ last := by
  have := o.bytes.toNat_lt
  simp only [toNat, last]
  omega

/-- Every offset is the offset of the position it names. -/
@[simp] theorem ofNat_toNat (o : Offset) : ofNat o.toNat = o := by
  obtain ⟨b⟩ := o
  have := b.toNat_lt
  simp only [ofNat, toNat, last, Offset.mk.injEq]
  apply UInt32.toNat_inj.1
  rw [UInt32.toNat_ofNat']
  omega

end Offset

/-! ## Spans -/

/-- A half-open range of bytes: `start` belongs to it and `stop` does not. A
range whose `stop` does not lie after its `start` covers nothing. -/
structure Span where
  -- The offset of the first byte.
  start : Offset
  -- The offset just past the last byte.
  stop : Offset
deriving DecidableEq, Repr, Inhabited

namespace Span

/-- The range between two positions, each saturated. -/
def ofNat (start stop : Nat) : Span := ⟨.ofNat start, .ofNat stop⟩

/-- The number of bytes covered: none when the range is reversed. -/
def size (s : Span) : Nat := s.stop.toNat - s.start.toNat

/-- Whether the range covers nothing. -/
def isEmpty (s : Span) : Bool := s.stop.toNat ≤ s.start.toNat

theorem isEmpty_iff {s : Span} : s.isEmpty = true ↔ s.size = 0 := by
  simp only [isEmpty, size, decide_eq_true_eq]
  omega

/-- The bytes of `text` from `start` up to `stop`, whether or not they are whole
characters. There are none when the range is reversed or reaches past the end. -/
def slice? (s : Span) (text : String) : Option ByteArray :=
  let bytes := text.toUTF8
  if s.start.toNat ≤ s.stop.toNat ∧ s.stop.toNat ≤ bytes.size then
    some (bytes.extract s.start.toNat s.stop.toNat)
  else
    none

end Span

end ScriptFront
