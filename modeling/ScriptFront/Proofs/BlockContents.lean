/-
What a block holds is what it was given since it was last emptied.

A history of a block is read backwards to the last operation that leaves it empty; what
comes behind that is `latest`. The bytes appended there, each with its line, are the code
and the line table (`pairs_after`), and the constants registered there are the pool
(`toList_constants_after`). Both inductions take the operations off from the right, since
the last one decides what `latest` is.

An index into the pool is a position in that list, and a history that does not empty the
block only adds behind it (`latest_append`): so an index keeps its meaning.
-/
import Mathlib.Data.List.Induction
import ScriptFront.CodeBlock.Listing
import ScriptFront.Proofs.BlockRuns

set_option autoImplicit false

namespace ScriptFront

namespace CodeBlock

open Number (Binary64)

/-! ## Since the block was last emptied -/

/-- Whether the operation leaves a block without code and constants. -/
def Op.empties : Op → Bool
  | .renew | .release => true
  | .append _ _ | .addConstant _ | .copy => false

/-- The byte that the operation appends, with its line. -/
def Op.byte? : Op → Option (UInt8 × Nat)
  | .append byte line => some (byte, line)
  | .renew | .addConstant _ | .release | .copy => none

/-- The constant that the operation registers. -/
def Op.constant? : Op → Option Binary64
  | .addConstant x => some x
  | .renew | .append _ _ | .release | .copy => none

/-- The operations behind the last one that empties the block. -/
def latest (ops : List Op) : List Op := (ops.reverse.takeWhile fun op => !op.empties).reverse

/-- The bytes appended since the block was last emptied, with their lines. -/
def appended (ops : List Op) : List (UInt8 × Nat) := (latest ops).filterMap Op.byte?

/-- The constants registered since the block was last emptied. -/
def registered (ops : List Op) : List Binary64 := (latest ops).filterMap Op.constant?

/-- An operation that empties the block leaves nothing to count; any other is counted last. -/
theorem latest_concat (ops : List Op) (op : Op) :
    latest (ops ++ [op]) = if op.empties then [] else latest ops ++ [op] := by
  unfold latest
  rw [List.reverse_append, List.reverse_singleton, List.singleton_append, List.takeWhile_cons]
  cases op.empties with
  | true => rfl
  | false => exact List.reverse_cons

/-- Operations that do not empty the block only add to what it was given. -/
theorem latest_append (ops : List Op) {later : List Op} (hkeep : ∀ op ∈ later, op.empties = false) :
    latest (ops ++ later) = latest ops ++ later := by
  induction later using List.reverseRecOn with
  | nil => rw [List.append_nil, List.append_nil]
  | append_singleton later op ih =>
    rw [List.forall_mem_append, List.forall_mem_singleton] at hkeep
    rw [← List.append_assoc, latest_concat, hkeep.2, if_neg Bool.false_ne_true, ih hkeep.1,
      List.append_assoc]

theorem after_append (b : CodeBlock) (ops ops' : List Op) :
    b.after (ops ++ ops') = (b.after ops).after ops' :=
  List.foldl_append

theorem after_concat (b : CodeBlock) (ops : List Op) (op : Op) :
    b.after (ops ++ [op]) = op.run (b.after ops) :=
  after_append b ops [op]

/-- **The code is what was appended.** -/
theorem pairs_after (ops : List Op) : (empty.after ops).pairs = appended ops := by
  induction ops using List.reverseRecOn with
  | nil => rfl
  | append_singleton ops op ih =>
    have haligned : (empty.after ops).code.toList.length = (empty.after ops).lines.toList.length :=
      isAligned_after ops
    rw [after_concat, appended, latest_concat]
    cases op with
    | renew => rfl
    | append byte line =>
      rw [Op.run, pairs, toList_code_append, toList_lines_append, List.zip_append haligned,
        Op.empties, if_neg Bool.false_ne_true, List.filterMap_append]
      exact congrArg (· ++ [(byte, line)]) ih
    | addConstant x =>
      rw [Op.empties, if_neg Bool.false_ne_true, List.filterMap_append]
      exact ih.trans (List.append_nil _).symm
    | release => rfl
    | copy =>
      rw [Op.empties, if_neg Bool.false_ne_true, List.filterMap_append]
      exact ih.trans (List.append_nil _).symm

/-- **The pool is what was registered.** -/
theorem toList_constants_after (ops : List Op) :
    (empty.after ops).constants.toList = registered ops := by
  induction ops using List.reverseRecOn with
  | nil => rfl
  | append_singleton ops op ih =>
    rw [after_concat, registered, latest_concat]
    cases op with
    | renew => rfl
    | append byte line =>
      rw [Op.empties, if_neg Bool.false_ne_true, List.filterMap_append]
      exact ih.trans (List.append_nil _).symm
    | addConstant x =>
      rw [Op.run, toList_constants_addConstant, Op.empties, if_neg Bool.false_ne_true,
        List.filterMap_append, ih]
      rfl
    | release => rfl
    | copy =>
      rw [Op.empties, if_neg Bool.false_ne_true, List.filterMap_append]
      exact ih.trans (List.append_nil _).symm

/-! ## Indices into the pool -/

/-- A constant is put behind those that are there, so its index is their number. -/
theorem snd_addConstant_after (ops : List Op) (x : Binary64) :
    ((empty.after ops).addConstant x).2 = (registered ops).length := by
  rw [← toList_constants_after]
  rfl

/-- After a constant and operations that do not empty the block, the pool goes on as the
operations go on. -/
theorem registered_addConstant (ops : List Op) (x : Binary64) {later : List Op}
    (hkeep : ∀ op ∈ later, op.empties = false) :
    registered (ops ++ .addConstant x :: later) =
      registered ops ++ x :: later.filterMap Op.constant? := by
  have hall : ∀ op ∈ Op.addConstant x :: later, op.empties = false :=
    List.forall_mem_cons.mpr ⟨rfl, hkeep⟩
  rw [registered, latest_append ops hall, List.filterMap_append]
  rfl

end CodeBlock

/-! ## Runs inside the line table -/

namespace LineRuns

/-- A run ends inside what the walk has before it. -/
theorem stop_le_of_next? {w w' : LineRuns} {run : LineRun} (h : w.next? = some (run, w')) :
    run.stop ≤ w.offset + w.rest.length ∧
      w'.offset + w'.rest.length = w.offset + w.rest.length := by
  unfold next? at h
  cases hrest : w.rest with
  | nil =>
    rw [hrest] at h
    contradiction
  | cons line rest =>
    rw [hrest] at h
    obtain ⟨rfl, rfl⟩ := Prod.mk.inj (Option.some.inj h)
    -- What is taken for the run and what is left make up the table behind its first line.
    have hsplit :=
      congrArg List.length (List.takeWhile_append_dropWhile (p := (· == line)) (l := rest))
    rw [List.length_append] at hsplit
    simp only [List.length_cons]
    omega

/-- **No run reaches past the line table.** -/
theorem stop_le (w : LineRuns) : ∀ run ∈ w.toList, run.stop ≤ w.offset + w.rest.length := by
  induction hn : w.rest.length using Nat.strongRecOn generalizing w with
  | ind n ih =>
    subst hn
    rw [toList_eq]
    cases hnext : w.next? with
    | none => exact List.forall_mem_nil _
    | some next =>
      obtain ⟨run, w'⟩ := next
      obtain ⟨hstop, hreach⟩ := stop_le_of_next? hnext
      refine List.forall_mem_cons.mpr ⟨hstop, ?_⟩
      intro later hlater
      rw [← hreach]
      exact ih _ (length_rest_lt hnext) w' rfl later hlater

end LineRuns

namespace CodeBlock

open Number (Binary64)

/-- Wherever a run goes there is a byte, if every byte has its line. -/
theorem IsAligned.exists_byte {b : CodeBlock} (h : b.IsAligned) {run : LineRun}
    (hrun : run ∈ b.lineRuns.toList) {offset : Nat} (hoffset : offset < run.stop) :
    ∃ byte, b.code.get? offset = some byte := by
  have hstop : run.stop ≤ 0 + b.lines.toList.length := b.lineRuns.stop_le run hrun
  have hinside : offset < b.code.toList.length := by
    rw [h]
    omega
  exact ⟨_, Array.getElem?_eq_getElem hinside⟩

/-! ## A block as two lists -/

/-- **A block is as good as two lists**: the bytes appended since it was last emptied, with
their lines, and the constants registered since then. Code and line table are equally
long, so a check passes, the listing warns of nothing, and no run goes where there is no
byte. A constant is registered under the number of those before it, and until the block
is emptied its index leads to it and is given to no other constant, not even an equal one. -/
theorem contents_after (ops : List Op) :
    let b := empty.after ops
    (b.code.toList = (appended ops).map Prod.fst ∧ b.lines.toList = (appended ops).map Prod.snd ∧
      b.size = (appended ops).length ∧
      (∀ offset, b.lineAt? offset = (appended ops)[offset]?.map Prod.snd) ∧
      b.constants.toList = registered ops ∧
      ∀ index, b.constant? index = (registered ops)[index]?) ∧
    (b.check = .ok () ∧ Listing.warning b = "" ∧
      ∀ run ∈ b.lineRuns.toList, ∀ offset, run.start ≤ offset → offset < run.stop →
        ∃ byte, b.code.get? offset = some byte) ∧
    ∀ x, (b.addConstant x).2 = (registered ops).length ∧
      ∀ later : List Op, (∀ op ∈ later, op.empties = false) →
        let b' := (b.addConstant x).1.after later
        b'.constant? (b.addConstant x).2 = some x ∧
          ∀ y, (b'.addConstant y).2 ≠ (b.addConstant x).2 := by
  intro b
  have h : b.IsAligned := isAligned_after ops
  have hpairs : b.pairs = appended ops := pairs_after ops
  have hpool : ∀ ops index, (empty.after ops).constant? index = (registered ops)[index]? := by
    intro ops index
    rw [← toList_constants_after]
    exact Array.getElem?_toList.symm
  have hcheck : b.check = .ok () := if_pos h
  refine ⟨⟨?_, ?_, ?_, ?_, toList_constants_after ops, hpool ops⟩, ⟨hcheck, ?_, ?_⟩, ?_⟩
  · rw [← hpairs, h.map_fst_pairs]
  · rw [← hpairs, h.map_snd_pairs]
  · rw [← hpairs, h.length_pairs]
  · intro offset
    rw [← hpairs, h.lineAt?_eq]
  · rw [Listing.warning, hcheck]
  · intro run hrun offset _ hoffset
    exact h.exists_byte hrun hoffset
  · intro x
    refine ⟨snd_addConstant_after ops x, ?_⟩
    intro later hkeep b'
    have hlater : b' = empty.after (ops ++ .addConstant x :: later) :=
      (after_append empty ops (.addConstant x :: later)).symm
    rw [hlater, snd_addConstant_after]
    refine ⟨?_, ?_⟩
    · rw [hpool, registered_addConstant ops x hkeep, List.getElem?_append_right (Nat.le_refl _),
        Nat.sub_self, List.getElem?_cons_zero]
    · intro y
      rw [snd_addConstant_after, registered_addConstant ops x hkeep, List.length_append,
        List.length_cons]
      omega

/-- A constant registered twice in a block that was emptied before, with code and a copy
between the two. -/
theorem contents_after_mixed :
    let one : Binary64 := ⟨0x3FF0000000000000⟩
    let ops : List Op := [.addConstant one, .append 9 9, .release, .append 1 7, .addConstant one]
    let later : List Op := [.append 2 7, .copy, .addConstant one]
    let b := empty.after ops
    let b' := (b.addConstant one).1.after later
    (∀ op ∈ later, op.empties = false) ∧ b.code.toList = [1] ∧ b.lines.toList = [7] ∧
      (b.addConstant one).2 = 1 ∧ b'.constant? 1 = some one ∧ (b'.addConstant one).2 ≠ 1 := by
  intro one ops later b b'
  have hkeep : ∀ op ∈ later, op.empties = false := by
    simp only [later, List.forall_mem_cons]
    exact ⟨rfl, rfl, rfl, List.forall_mem_nil _⟩
  obtain ⟨⟨hcode, hlines, -⟩, -, hconstant⟩ := contents_after ops
  obtain ⟨hindex, hlater⟩ := hconstant one
  obtain ⟨hkept, hother⟩ := hlater later hkeep
  exact ⟨hkeep, hcode, hlines, hindex, hkept, hother one⟩

end CodeBlock

end ScriptFront
