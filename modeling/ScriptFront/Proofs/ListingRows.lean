/-
A listing has one row for each byte, however the bytes are walked.

`Listing.rows` says what the rows are: bytes and lines are passed over once, with
the line before in hand. A walk byte by byte writes these rows, from wherever it
begins (`walk_eq`), since the line it looks up in front of a byte is the one in
hand. A walk run by run writes them too (`join_runRows`): inside a run no line
changes, and a run begins where one does. The induction is on what is left, and what
carries it is that the line in hand is not the one of the run to come.
-/
import Mathlib.Data.List.Basic
import Mathlib.Logic.Function.Iterate
import ScriptFront.CodeBlock.Listing
import ScriptFront.Proofs.BlockRuns
import ScriptFront.Proofs.Decimal

set_option autoImplicit false

namespace ScriptFront.Listing

open CodeBlock (Op)

/-! ## Rows -/

/-- The rows of bytes with their lines from an offset on, after a byte on the line
`before`: a line that is the same again is not shown. -/
def rowsFrom (before : Option Nat) (offset : Nat) : List (UInt8 × Nat) → List String
  | [] => []
  | p :: ps =>
    byteRow offset p.1 (if before = some p.2 then none else some p.2) ::
      rowsFrom (some p.2) (offset + 1) ps

/-- The rows of a block, one for each byte. -/
def rows (b : CodeBlock) : List String := rowsFrom none 0 b.pairs

/-- The line of the byte in front of an offset, if there is one. -/
def lineBefore (b : CodeBlock) : Nat → Option Nat
  | 0 => none
  | offset + 1 => b.lineAt? offset

/-- There is a row for each byte. -/
theorem length_rowsFrom (before : Option Nat) (offset : Nat) (ps : List (UInt8 × Nat)) :
    (rowsFrom before offset ps).length = ps.length := by
  induction ps generalizing before offset with
  | nil => rfl
  | cons p ps ih => rw [rowsFrom, List.length_cons, ih, List.length_cons]

/-! ## Run by run -/

section Runs

variable {line : Nat} {cs : List (UInt8 × Nat)}

/-- Behind a byte on the same line, the rows of a run show no line. -/
theorem rowsFrom_run (hline : ∀ c ∈ cs, c.2 = line) (offset : Nat) (ps : List (UInt8 × Nat)) :
    rowsFrom (some line) offset (cs ++ ps) =
      ((cs.map Prod.fst).zipIdx offset).map (fun q => byteRow q.2 q.1 none) ++
        rowsFrom (some line) (offset + cs.length) ps := by
  induction cs generalizing offset with
  | nil => rfl
  | cons c cs ih =>
    obtain ⟨hc, hcs⟩ := List.forall_mem_cons.mp hline
    rw [List.cons_append, rowsFrom, hc, if_pos rfl, ih hcs, List.map_cons, List.zipIdx_cons,
      List.map_cons, List.length_cons, List.cons_append, Nat.add_right_comm, Nat.add_assoc]

theorem foldl_append_eq_join {α : Type} (write : α → String) (out : String) (l : List α) :
    l.foldl (fun out a => out ++ write a) out = out ++ String.join (l.map write) := by
  induction l generalizing out with
  | nil => simp
  | cons a l ih => rw [List.foldl_cons, ih, List.map_cons, String.join_cons, String.append_assoc]

/-- The first row of a run shows its line, and the others do not. -/
theorem runRows_eq {b : CodeBlock} {run : LineRun} {byte : UInt8} {bytes : List UInt8}
    (hcode : (b.code.toArray.extract run.start run.stop).toList = byte :: bytes) :
    runRows b run = byteRow run.start byte (some run.line) ++
      String.join ((bytes.zipIdx (run.start + 1)).map fun q => byteRow q.2 q.1 none) := by
  have hfold := foldl_append_eq_join (fun q : UInt8 × Nat =>
    byteRow q.2 q.1 (if q.2 = run.start then some run.line else none)) "" (
      (byte :: bytes).zipIdx run.start)
  have hrest : (bytes.zipIdx (run.start + 1)).map (fun q : UInt8 × Nat =>
      byteRow q.2 q.1 (if q.2 = run.start then some run.line else none)) =
      (bytes.zipIdx (run.start + 1)).map fun q => byteRow q.2 q.1 none := by
    apply List.map_congr_left
    intro q hq
    have hbehind := List.le_snd_of_mem_zipIdx hq
    rw [if_neg (by omega)]
  rw [List.zipIdx_cons, List.map_cons, hrest, String.join_cons, if_pos rfl, String.empty_append]
    at hfold
  rw [runRows, hcode]
  exact hfold

/-- The bytes of the first `n` pairs from an offset on. -/
theorem toList_extract_code {b : CodeBlock} (h : b.IsAligned) (offset n : Nat) :
    (b.code.toArray.extract offset (offset + n)).toList =
      ((b.pairs.drop offset).take n).map Prod.fst := by
  rw [Array.toList_extract, List.extract_eq_take_drop, Nat.add_sub_cancel_left, List.map_take,
    List.map_drop, h.map_fst_pairs]
  rfl

/-- The next run takes as many pairs as there are on one line. -/
theorem exists_next?_eq (offset : Nat) (p : UInt8 × Nat) (ps : List (UInt8 × Nat)) :
    ∃ cs ds, ps = cs ++ ds ∧ (∀ c ∈ cs, c.2 = p.2) ∧
      (∀ line ∈ (ds.map Prod.snd).head?, some p.2 ≠ some line) ∧
      LineRuns.next? { offset, rest := (p :: ps).map Prod.snd } =
        some ({ start := offset, stop := offset + 1 + cs.length, line := p.2 },
          { offset := offset + 1 + cs.length, rest := ds.map Prod.snd }) := by
  refine ⟨ps.takeWhile fun c => c.2 == p.2, ps.dropWhile fun c => c.2 == p.2,
    List.takeWhile_append_dropWhile.symm, ?_, ?_, ?_⟩
  · intro c hc
    exact beq_iff_eq.mp (List.all_eq_true.mp List.all_takeWhile c hc)
  · intro line hline hsame
    have hstop := List.head?_dropWhile_not (fun c : UInt8 × Nat => c.2 == p.2) ps
    obtain ⟨c, hc, hcline⟩ := Option.map_eq_some_iff.mp (List.head?_map ▸ hline)
    rw [hc] at hstop
    rw [← hcline, Option.some_inj] at hsame
    simp [hsame] at hstop
  · simp only [LineRuns.next?, List.map_cons, List.takeWhile_map, List.dropWhile_map,
      List.length_map]
    rfl

/-- **Run by run the rows are written**, if the line in hand is not the one of the
run to come. -/
theorem join_runRows {b : CodeBlock} (h : b.IsAligned) (offset : Nat) (before : Option Nat)
    (hnew : ∀ line ∈ ((b.pairs.drop offset).map Prod.snd).head?, before ≠ some line) :
    String.join ((LineRuns.toList ⟨offset, (b.pairs.drop offset).map Prod.snd⟩).map (runRows b)) =
      String.join (rowsFrom before offset (b.pairs.drop offset)) := by
  induction hn : (b.pairs.drop offset).length using Nat.strongRecOn generalizing offset before with
  | ind n ih =>
    subst hn
    rw [LineRuns.toList_eq]
    cases hpairs : b.pairs.drop offset with
    | nil => rfl
    | cons p ps =>
      obtain ⟨cs, ds, rfl, hline, hnext, hrun⟩ := exists_next?_eq offset p ps
      have hds : b.pairs.drop (offset + 1 + cs.length) = ds := by
        rw [← List.drop_drop, ← List.drop_drop, hpairs, List.drop_one, List.tail_cons,
          List.drop_left]
      have hbytes : (b.code.toArray.extract offset (offset + 1 + cs.length)).toList =
          p.1 :: cs.map Prod.fst := by
        rw [Nat.add_assoc, toList_extract_code h, hpairs, Nat.add_comm, List.take_succ_cons,
          List.take_left, List.map_cons]
      have hfirst : before ≠ some p.2 := by
        apply hnew
        rw [hpairs]
        rfl
      have hshort : ds.length < (p :: (cs ++ ds)).length := by
        rw [List.length_cons, List.length_append]
        omega
      have hrest := ih ds.length (hpairs ▸ hshort) (offset + 1 + cs.length) (some p.2) (hds.symm ▸ hnext)
        (congrArg List.length hds)
      rw [hds] at hrest
      rw [hrun]
      dsimp only
      rw [List.map_cons, String.join_cons, runRows_eq hbytes, hrest, rowsFrom,
        if_neg hfirst, rowsFrom_run hline, String.join_cons, String.join_append,
        String.append_assoc]

end Runs

/-- **The listing of a block** is its header, its rows and its constants. -/
theorem block_eq_rows {b : CodeBlock} (h : b.IsAligned) (name : String) :
    block b name = "== " ++ name ++ " ==\n" ++ String.join (rows b) ++
      constantRows b.constants.toList := by
  have hsize : b.code.size = b.lines.size := h
  have hwarning : warning b = "" := by
    rw [warning, CodeBlock.check, if_pos hsize]
  have hrows := join_runRows h 0 none (fun _ _ => nofun)
  rw [List.drop_zero, h.map_snd_pairs] at hrows
  rw [block, hwarning, String.append_empty, CodeBlock.lineRuns, hrows, rows]

/-! ## Byte by byte -/

section Walk

variable {b : CodeBlock}

/-- The line of a byte is shown where it differs from the line of the byte before. -/
theorem lineShown_eq {offset line : Nat} (hline : b.lineAt? offset = some line) :
    lineShown b offset = if lineBefore b offset = some line then none else some line := by
  unfold lineShown
  rw [hline, Option.getD_some]
  cases offset with
  | zero => rfl
  | succ offset =>
    simp only [Nat.succ_pos, true_and, Nat.add_sub_cancel]
    rfl

/-- From an offset on, the rows are those after the line in front of it. -/
theorem drop_rows (h : b.IsAligned) {offset : Nat} (hoffset : offset ≤ b.size) :
    (rows b).drop offset = rowsFrom (lineBefore b offset) offset (b.pairs.drop offset) := by
  induction offset with
  | zero => rfl
  | succ offset ih =>
    have hlt : offset < b.pairs.length := by
      rw [h.length_pairs]
      exact hoffset
    rw [← List.drop_drop, ih (Nat.le_of_lt hoffset), List.drop_eq_getElem_cons hlt, rowsFrom,
      List.drop_one, List.tail_cons, lineBefore, h.lineAt?_eq, List.getElem?_eq_getElem hlt,
      Option.map_some]

/-- A step inside the code writes the row of its byte. -/
theorem step_of_lt (h : b.IsAligned) {offset : Nat} (hoffset : offset < b.size) :
    ∃ row, (rows b).drop offset = row :: (rows b).drop (offset + 1) ∧
      ∀ out, step b offset out = (offset + 1, out ++ row) := by
  have hlt : offset < b.pairs.length := by
    rw [h.length_pairs]
    exact hoffset
  have hbyte : b.code.get? offset = some b.pairs[offset].1 := by
    rw [h.get?_code, List.getElem?_eq_getElem hlt, Option.map_some]
  have hline : b.lineAt? offset = some b.pairs[offset].2 := by
    rw [h.lineAt?_eq, List.getElem?_eq_getElem hlt, Option.map_some]
  refine ⟨byteRow offset b.pairs[offset].1 (lineShown b offset), ?_, ?_⟩
  · rw [drop_rows h (Nat.le_of_lt hoffset), drop_rows h hoffset, List.drop_eq_getElem_cons hlt,
      rowsFrom, lineShown_eq hline, lineBefore, hline]
  · intro out
    rw [step, hbyte]

/-- A step where there is no byte changes nothing. -/
theorem step_of_le {offset : Nat} (hoffset : b.size ≤ offset) (out : String) :
    step b offset out = (offset, out) := by
  have hnone : b.code.get? offset = none := Array.getElem?_eq_none hoffset
  rw [step, hnone]

/-- A step that does not move ends the walk. -/
theorem walk_of_eq {offset : Nat} {out : String} (h : (step b offset out).1 = offset) :
    walk b offset out = step b offset out := by
  rw [walk, dif_pos h]

/-- A step that moves is followed by the walk from where it leads. -/
theorem walk_of_ne {offset : Nat} {out : String} (h : (step b offset out).1 ≠ offset) :
    walk b offset out = walk b (step b offset out).1 (step b offset out).2 := by
  rw [walk, dif_neg h]

theorem length_rows (h : b.IsAligned) : (rows b).length = b.size := by
  rw [rows, length_rowsFrom, h.length_pairs]

/-- **Byte by byte the rows are written**, from any offset on. The induction is on the
number of bytes to come. -/
theorem walk_eq (h : b.IsAligned) {offset : Nat} (hoffset : offset ≤ b.size) (out : String) :
    walk b offset out = (b.size, out ++ String.join ((rows b).drop offset)) := by
  induction hn : b.size - offset generalizing offset out with
  | zero =>
    have hend : b.size = offset := by omega
    have hstay := step_of_le (Nat.le_of_eq hend) out
    have hmoved : (step b offset out).1 = offset := congrArg Prod.fst hstay
    have hnone : (rows b).drop offset = [] := by
      apply List.drop_of_length_le
      exact Nat.le_of_eq ((length_rows h).trans hend)
    rw [walk_of_eq hmoved, hstay, hnone, hend, String.join_nil, String.append_empty]
  | succ n ih =>
    have hlt : offset < b.size := by omega
    obtain ⟨row, hdrop, hstep⟩ := step_of_lt h hlt
    have hmoved : (step b offset out).1 ≠ offset := by
      rw [hstep]
      exact Nat.succ_ne_self offset
    rw [walk_of_ne hmoved, hstep, ih hlt _ (by omega), hdrop, String.join_cons,
      String.append_assoc]

/-- A number of steps from an offset on writes as many rows, as far as there are any. -/
theorem iterate_step (h : b.IsAligned) {offset : Nat} (hoffset : offset ≤ b.size) (out : String)
    (n : Nat) :
    (fun s => step b s.1 s.2)^[n] (offset, out) =
      (min (offset + n) b.size, out ++ String.join (((rows b).drop offset).take n)) := by
  induction n with
  | zero =>
    rw [Nat.add_zero, Nat.min_eq_left hoffset, List.take_zero, String.join_nil,
      String.append_empty]
    rfl
  | succ n ih =>
    rw [Function.iterate_succ_apply', ih]
    dsimp only
    by_cases hlt : offset + n < b.size
    · obtain ⟨row, hdrop, hstep⟩ := step_of_lt h hlt
      have hrow : ((rows b).drop offset)[n]? = some row := by
        rw [List.getElem?_drop, ← List.head?_drop, hdrop, List.head?_cons]
      rw [Nat.min_eq_left (Nat.le_of_lt hlt), hstep, List.take_add_one, hrow, Option.toList_some,
        String.join_append, String.join_cons, String.join_nil, String.append_empty,
        String.append_assoc, ← Nat.add_assoc,
        Nat.min_eq_left hlt]
    · have hfew : ((rows b).drop offset).length ≤ n := by
        rw [List.length_drop, length_rows h]
        omega
      have hend : min (offset + n) b.size = b.size := by omega
      have hend' : min (offset + (n + 1)) b.size = b.size := by omega
      rw [hend, hend', step_of_le (Nat.le_refl _), List.take_of_length_le hfew,
        List.take_of_length_le (Nat.le_succ_of_le hfew)]

end Walk

/-! ## Rows as lines -/

/-- The text takes one line, and all of it. -/
def IsLine (s : String) : Prop := ∃ text, s.toList = text ++ ['\n'] ∧ '\n' ∉ text

/-- The column of a byte's source line. -/
def lineColumn (line : Option Nat) : String :=
  line.elim sameLine fun line => Text.padLeft lineWidth (toString line)

theorem toList_byteRow (offset : Nat) (byte : UInt8) (line : Option Nat) :
    (byteRow offset byte line).toList =
      (Text.zeroPadded indexWidth offset).toList ++ ' ' :: ((lineColumn line).toList ++
        ' ' :: '0' :: 'x' :: ((Text.hexByte byte).toList ++ ['\n'])) := by
  unfold byteRow
  simp only [String.toList_append, List.append_assoc]
  rfl

theorem newline_notMem_lineColumn (line : Option Nat) : '\n' ∉ (lineColumn line).toList := by
  cases line with
  | none => decide
  | some line =>
    rw [lineColumn, Option.elim_some, Text.toList_padLeft, List.mem_append, not_or]
    refine ⟨?_, newline_notMem_toString line⟩
    intro hmem
    exact absurd (List.eq_of_mem_replicate hmem) (by decide)

theorem newline_notMem_hexByte (byte : UInt8) : '\n' ∉ (Text.hexByte byte).toList := by
  have hdigit : ∀ n < 16, '\n' ≠ Text.hexDigitUpper n := by decide
  have hhigh : byte.toNat / 16 < 16 := by
    have := byte.toNat_lt
    omega
  have hlow : byte.toNat % 16 < 16 := Nat.mod_lt _ (by decide)
  rw [Text.hexByte, String.toList_ofList, List.mem_cons, List.mem_singleton, not_or]
  exact ⟨hdigit _ hhigh, hdigit _ hlow⟩

/-- The row of a byte is one line. -/
theorem isLine_byteRow (offset : Nat) (byte : UInt8) (line : Option Nat) :
    IsLine (byteRow offset byte line) := by
  refine ⟨(Text.zeroPadded indexWidth offset).toList ++ ' ' :: ((lineColumn line).toList ++
    ' ' :: '0' :: 'x' :: (Text.hexByte byte).toList), ?_, ?_⟩
  · rw [toList_byteRow]
    simp only [List.append_assoc, List.cons_append]
  · simp only [List.mem_append, List.mem_cons, not_or]
    exact ⟨newline_notMem_zeroPadded _ _, by decide, newline_notMem_lineColumn line, by decide, by decide, by decide,
      newline_notMem_hexByte byte⟩

/-- Each row of a listing is one line. -/
theorem isLine_of_mem_rowsFrom {before : Option Nat} {offset : Nat} {ps : List (UInt8 × Nat)} :
    ∀ row ∈ rowsFrom before offset ps, IsLine row := by
  induction ps generalizing before offset with
  | nil => exact List.forall_mem_nil _
  | cons p ps ih => exact List.forall_mem_cons.mpr ⟨isLine_byteRow _ _ _, ih⟩

/-! ## Both ways -/

/-- Constants have a section of the listing if there are any: a line that announces them and then
a line for each, with its index and its text. -/
theorem constantRows_of_ne_nil {constants : List Number.Binary64} (h : constants ≠ []) :
    constantRows constants = ";; constants\n" ++
      String.join (constants.zipIdx.map fun entry =>
        "[" ++ Text.zeroPadded 4 entry.2 ++ "] " ++ entry.1.text ++ "\n") := by
  rw [constantRows, if_neg (by simpa using h)]
  rfl

/-- **Both ways of walking write the same rows**, whatever was done with the block
before. The listing under any name has a line for each byte between its header and its
section of constants, and ends after the bytes if there are no constants. Steps taken from an
offset on append the lines of the bytes that are still to come, one each, and stop moving at the
end of the code; from the first byte on that is all of the listing between header and constants.
Where there is no byte, a step changes nothing. -/
theorem block_eq_walk (ops : List Op) (name : String) :
    let b := CodeBlock.empty.after ops
    let pool := b.constants.toList
    ∃ constants : String,
      (pool = [] → constants = "") ∧
      (pool ≠ [] → constants = ";; constants\n" ++
        String.join (pool.zipIdx.map fun entry =>
          "[" ++ Text.zeroPadded 4 entry.2 ++ "] " ++ entry.1.text ++ "\n")) ∧
      (rows b).length = b.size ∧ (∀ row ∈ rows b, IsLine row) ∧
      block b name = "== " ++ name ++ " ==\n" ++ String.join (rows b) ++ constants ∧
      (∀ offset ≤ b.size, ∀ out,
        walk b offset out = (b.size, out ++ String.join ((rows b).drop offset)) ∧
        ∀ n, (fun s => step b s.1 s.2)^[n] (offset, out) =
          (min (offset + n) b.size, out ++ String.join (((rows b).drop offset).take n))) ∧
      block b name = "== " ++ name ++ " ==\n" ++ (walk b 0 "").2 ++ constants ∧
      ∀ offset, b.size ≤ offset → ∀ out, step b offset out = (offset, out) := by
  intro b pool
  have h : b.IsAligned := CodeBlock.isAligned_after ops
  refine ⟨constantRows pool, ?_, constantRows_of_ne_nil, length_rows h, isLine_of_mem_rowsFrom,
    block_eq_rows h name, ?_, ?_, ?_⟩
  · intro hnone
    rw [hnone]
    rfl
  · intro offset hoffset out
    exact ⟨walk_eq h hoffset out, iterate_step h hoffset out⟩
  · rw [block_eq_rows h, walk_eq h (Nat.zero_le _), List.drop_zero, String.empty_append]
  · intro offset hoffset out
    exact step_of_le hoffset out

/-- A walk that begins inside a run, in a block that begins on the line zero and has no
constants, and the listing of a block that has a constant and no code. -/
theorem block_eq_walk_inside :
    let b := CodeBlock.empty.after [.append 0x10 0, .append 0x11 0, .append 0xFF 12345]
    let b' := CodeBlock.empty.after [.addConstant ⟨0x3FF8000000000000⟩]
    1 ≤ b.size ∧ walk b 1 "" = (3, "0001    | 0x11\n0002 12345 0xFF\n") ∧
      b.size ≤ 9 ∧ step b 9 "" = (9, "") ∧ b.constants.toList = [] ∧
      block b "walk" = "== walk ==\n0000    0 0x10\n0001    | 0x11\n0002 12345 0xFF\n" ∧
      b'.constants.toList ≠ [] ∧ block b' "pool" = "== pool ==\n;; constants\n[0000] 1.5\n" := by
  intro b b'
  obtain ⟨constants, hnone, -, -, -, hblock, hwalk, -, hstay⟩ :=
    block_eq_walk [.append 0x10 0, .append 0x11 0, .append 0xFF 12345] "walk"
  obtain ⟨constants', -, hsome, -, -, hblock', -⟩ :=
    block_eq_walk [.addConstant ⟨0x3FF8000000000000⟩] "pool"
  have hinside : 1 ≤ b.size := by decide
  have houtside : b.size ≤ 9 := by decide
  have hempty : b.constants.toList = [] := rfl
  have hpool : b'.constants.toList ≠ [] := List.cons_ne_nil _ _
  refine ⟨hinside, ?_, houtside, hstay 9 houtside "", hempty, ?_, hpool, ?_⟩
  · have hrows : (b.size, "" ++ String.join ((rows b).drop 1)) =
        (3, "0001    | 0x11\n0002 12345 0xFF\n") := by decide +kernel
    rw [← hrows]
    exact (hwalk 1 hinside "").1
  · rw [hblock, hnone hempty]
    decide +kernel
  · rw [hblock', hsome hpool]
    decide +kernel

end ScriptFront.Listing
