/-
Blocks of code under any operations.

Bytes and lines are appended together and released together, so whatever is done
with a block, every byte has its line (`CodeBlock.isAligned_after`). A block in
which that is so is as good as the list of its bytes with their lines
(`CodeBlock.pairs`).
-/
import ScriptFront.CodeBlock.Basic

set_option autoImplicit false

namespace ScriptFront.CodeBlock

open Number (Binary64)

/-! ## Operations -/

/-- What can be done with a block. -/
inductive Op where
  -- A new block takes its place.
  | renew
  | append (byte : UInt8) (line : Nat)
  | addConstant (x : Binary64)
  | release
  -- Its copy takes its place.
  | copy
deriving Repr

/-- The block after the operation. -/
def Op.run (b : CodeBlock) : Op → CodeBlock
  | renew => empty
  | append byte line => b.append byte line
  | addConstant x => (b.addConstant x).1
  | release => b.release
  | copy => b.copy

def after (b : CodeBlock) (ops : List Op) : CodeBlock := ops.foldl Op.run b

/-! ## Bytes with their lines -/

/-- Every byte has its line. -/
def IsAligned (b : CodeBlock) : Prop := b.code.toList.length = b.lines.toList.length

/-- The bytes with their lines, in order. -/
def pairs (b : CodeBlock) : List (UInt8 × Nat) := b.code.toList.zip b.lines.toList

namespace IsAligned

variable {b : CodeBlock}

theorem map_fst_pairs (h : b.IsAligned) : b.pairs.map Prod.fst = b.code.toList :=
  List.map_fst_zip (Nat.le_of_eq h)

theorem map_snd_pairs (h : b.IsAligned) : b.pairs.map Prod.snd = b.lines.toList :=
  List.map_snd_zip (Nat.le_of_eq h.symm)

theorem length_pairs (h : b.IsAligned) : b.pairs.length = b.size := by
  rw [← List.length_map (f := Prod.fst), h.map_fst_pairs]
  rfl

/-- Where every byte has its line, the pairs are as good as bytes and lines. -/
theorem pairs_inj {b' : CodeBlock} (h : b.IsAligned) (h' : b'.IsAligned) :
    b.pairs = b'.pairs ↔ b.code.toList = b'.code.toList ∧ b.lines.toList = b'.lines.toList := by
  constructor
  · intro hpairs
    rw [← h.map_fst_pairs, ← h'.map_fst_pairs, ← h.map_snd_pairs, ← h'.map_snd_pairs, hpairs]
    exact ⟨rfl, rfl⟩
  · rintro ⟨hcode, hlines⟩
    rw [pairs, pairs, hcode, hlines]

theorem empty : IsAligned empty := rfl

/-- The byte at an offset is the first of the pair there. -/
theorem get?_code (h : b.IsAligned) (offset : Nat) :
    b.code.get? offset = b.pairs[offset]?.map Prod.fst := by
  rw [← List.getElem?_map, h.map_fst_pairs]
  exact Array.getElem?_toList.symm

/-- The line at an offset is the second of the pair there. -/
theorem lineAt?_eq (h : b.IsAligned) (offset : Nat) :
    b.lineAt? offset = b.pairs[offset]?.map Prod.snd := by
  rw [← List.getElem?_map, h.map_snd_pairs]
  exact Array.getElem?_toList.symm

/-- Each operation on a block keeps a line beside every byte. -/
theorem run (h : b.IsAligned) (op : Op) : (op.run b).IsAligned := by
  unfold IsAligned at h ⊢
  cases op with
  | renew => exact empty
  | append byte line =>
    rw [Op.run, toList_code_append, toList_lines_append, List.length_append, List.length_append, h]
    rfl
  | addConstant x => exact h
  | release => rfl
  | copy => exact h

/-- A block that is made by any operations has a line beside every byte. -/
theorem after (h : b.IsAligned) (ops : List Op) : (b.after ops).IsAligned := by
  induction ops generalizing b with
  | nil => exact h
  | cons op ops ih => exact ih (h.run op)

end IsAligned

/-- **Every byte has its line**, whatever was done. -/
theorem isAligned_after (ops : List Op) : (empty.after ops).IsAligned :=
  IsAligned.empty.after ops

end ScriptFront.CodeBlock
