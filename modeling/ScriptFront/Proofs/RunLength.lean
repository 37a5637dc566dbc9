/-
The runs of a line table are its run-length encoding.

A walk hands out runs that follow one another without a gap, none of them empty, and
neighbours are on different lines (`Consecutive`). Such runs can be written out again
(`LineRuns.expand`), and what a walk hands out, written out, is the table it walked over
(`consecutive_toList`).

The other way round, a walk over runs that are written out hands out these very runs
(`toList_expand`): the first run stops where the line changes, and that is where a walk
stops as well. So there is one way only to divide a table into such runs, and a division
that is told by its offsets and lines alone, as in `CodeBlock.IsRunLength`, is the one
that the walk finds.
-/
import Mathlib.Data.List.Chain
import ScriptFront.Proofs.BlockContents

set_option autoImplicit false

namespace ScriptFront

/-! ## Runs written out -/

/-- The lines that a run stands for, one for each byte. -/
def LineRun.lines (run : LineRun) : List Nat := List.replicate (run.stop - run.start) run.line

namespace LineRuns

/-- The line table that runs stand for. -/
def expand (runs : List LineRun) : List Nat := runs.flatMap LineRun.lines

/-- Runs that follow one another from an offset on, none of them empty, each on another
line than the one before it. -/
inductive Consecutive : Nat → List LineRun → Prop where
  | nil (offset : Nat) : Consecutive offset []
  | cons {run : LineRun} {runs : List LineRun} :
      run.start < run.stop → (∀ later ∈ runs.head?, run.line ≠ later.line) →
        Consecutive run.stop runs → Consecutive run.start (run :: runs)

theorem expand_cons (run : LineRun) (runs : List LineRun) :
    expand (run :: runs) = run.lines ++ expand runs := List.flatMap_cons

/-- A run that is not empty stands for its line and some copies of it. -/
theorem exists_lines_eq_cons {run : LineRun} (h : run.start < run.stop) :
    ∃ n, run.stop = run.start + 1 + n ∧ run.lines = run.line :: List.replicate n run.line := by
  obtain ⟨n, hn⟩ := Nat.exists_eq_add_of_lt h
  refine ⟨n, by omega, ?_⟩
  rw [LineRun.lines, ← List.replicate_succ]
  congr 1
  omega

/-- What is said of consecutive runs is said of each of them and of neighbours. -/
theorem consecutive_iff {offset : Nat} {runs : List LineRun} :
    Consecutive offset runs ↔
      (∀ run ∈ runs, run.start < run.stop) ∧ (∀ run ∈ runs.head?, run.start = offset) ∧
        (runs.IsChain fun a b => b.start = a.stop) ∧ runs.IsChain fun a b => a.line ≠ b.line := by
  induction runs generalizing offset with
  | nil =>
    exact iff_of_true (.nil offset)
      ⟨List.forall_mem_nil _, nofun, List.isChain_nil, List.isChain_nil⟩
  | cons run runs ih =>
    rw [List.forall_mem_cons, List.isChain_cons, List.isChain_cons]
    constructor
    · intro h
      cases h with
      | cons hnonempty hline htail =>
        obtain ⟨hall, hfirst, hnext, hchange⟩ := ih.mp htail
        refine ⟨⟨hnonempty, hall⟩, ?_, ⟨hfirst, hnext⟩, hline, hchange⟩
        intro first hmem
        rw [← Option.some.inj hmem]
    · rintro ⟨⟨hnonempty, hall⟩, hfirst, ⟨hnext, hchain⟩, hline, hchange⟩
      obtain rfl : run.start = offset := hfirst run rfl
      exact .cons hnonempty hline (ih.mpr ⟨hall, hnext, hchain, hchange⟩)

namespace Consecutive

variable {offset : Nat} {runs : List LineRun}

theorem length_expand (h : Consecutive offset runs) :
    offset + (expand runs).length = runs.getLast?.elim offset LineRun.stop := by
  induction h with
  | nil offset => rfl
  | @cons run runs hnonempty _ _ ih =>
    have hstep : run.start + (expand (run :: runs)).length = run.stop + (expand runs).length := by
      rw [expand_cons, List.length_append, LineRun.lines, List.length_replicate]
      omega
    rw [hstep, ih]
    cases runs with
    | nil => rfl
    | cons next runs =>
      rw [List.getLast?_cons_cons, List.getLast?_eq_some_getLast (List.cons_ne_nil next runs)]
      rfl

theorem le_start (h : Consecutive offset runs) : ∀ run ∈ runs, offset ≤ run.start := by
  induction h with
  | nil => exact List.forall_mem_nil _
  | cons hnonempty _ _ ih =>
    refine List.forall_mem_cons.mpr ⟨Nat.le_refl _, ?_⟩
    intro later hmem
    exact Nat.le_trans (Nat.le_of_lt hnonempty) (ih later hmem)

/-- Inside a run stands the line of the run. -/
theorem getElem?_expand (h : Consecutive offset runs) {run : LineRun} (hrun : run ∈ runs) {i : Nat}
    (hstart : run.start ≤ i) (hstop : i < run.stop) :
    (expand runs)[i - offset]? = some run.line := by
  induction h with
  | nil => contradiction
  | @cons first runs hnonempty _ htail ih =>
    have hlength : first.lines.length = first.stop - first.start := List.length_replicate
    rw [expand_cons]
    rcases List.mem_cons.mp hrun with rfl | hlater
    · rw [List.getElem?_append_left (by omega), LineRun.lines,
        List.getElem?_replicate_of_lt (by omega)]
    · have hbehind : first.stop ≤ i := Nat.le_trans (htail.le_start run hlater) hstart
      rw [List.getElem?_append_right (by omega), hlength,
        show i - first.start - (first.stop - first.start) = i - first.stop by omega]
      exact ih hlater

/-- Every offset of the table lies in a run. -/
theorem exists_mem (h : Consecutive offset runs) {i : Nat} (hi : i < (expand runs).length) :
    ∃ run ∈ runs, run.start ≤ offset + i ∧ offset + i < run.stop := by
  induction h generalizing i with
  | nil => exact absurd hi (Nat.not_lt_zero i)
  | @cons first runs hnonempty _ _ ih =>
    have hlength : first.lines.length = first.stop - first.start := List.length_replicate
    by_cases hinside : i < first.stop - first.start
    · exact ⟨first, List.mem_cons_self, by omega, by omega⟩
    · rw [expand_cons, List.length_append] at hi
      obtain ⟨run, hrun, hstart, hstop⟩ := ih (i := i - (first.stop - first.start)) (by omega)
      exact ⟨run, List.mem_cons_of_mem _ hrun, by omega, by omega⟩

/-- What is written out goes on with another line if the first run is on another one. -/
theorem head?_expand_ne_iff (h : Consecutive offset runs) {line : Nat} :
    (expand runs).head? ≠ some line ↔ ∀ run ∈ runs.head?, line ≠ run.line := by
  cases h with
  | nil => exact iff_of_true nofun nofun
  | @cons run runs hnonempty _ _ =>
    obtain ⟨n, -, hlines⟩ := exists_lines_eq_cons hnonempty
    rw [expand_cons, hlines, List.cons_append, List.head?_cons, Ne, Option.some_inj,
      List.head?_cons]
    constructor
    · intro hother later hlater hsame
      obtain rfl := Option.some.inj hlater
      exact hother hsame.symm
    · intro hother hsame
      exact hother run rfl hsame.symm

end Consecutive

/-! ## Walks -/

/-- A table begins with some copies of a line, behind which it goes on with another one. -/
theorem exists_copies (line : Nat) (table : List Nat) :
    ∃ n rest, table = List.replicate n line ++ rest ∧ rest.head? ≠ some line := by
  induction table with
  | nil => exact ⟨0, [], rfl, nofun⟩
  | cons first table ih =>
    by_cases hfirst : first = line
    · obtain ⟨n, rest, htable, hother⟩ := ih
      refine ⟨n + 1, rest, ?_, hother⟩
      rw [hfirst, htable, List.replicate_succ, List.cons_append]
    · refine ⟨0, first :: table, rfl, ?_⟩
      intro hsame
      exact hfirst (Option.some.inj hsame)

/-- The next run takes the copies and stops where another line begins. -/
theorem next?_copies (offset : Nat) {line : Nat} (n : Nat) {rest : List Nat}
    (h : rest.head? ≠ some line) :
    next? { offset, rest := line :: (List.replicate n line ++ rest) } =
      some ({ start := offset, stop := offset + 1 + n, line },
        { offset := offset + 1 + n, rest }) := by
  have hcopies : ∀ x ∈ List.replicate n line, (x == line) = true := by
    intro x hx
    exact beq_iff_eq.mpr (List.eq_of_mem_replicate hx)
  -- Behind the copies there is nothing more to take, and nothing to pass over.
  have hbehind : rest.takeWhile (· == line) = [] ∧ rest.dropWhile (· == line) = rest := by
    cases rest with
    | nil => exact ⟨rfl, rfl⟩
    | cons other rest =>
      have hother : ¬ (other == line) = true := by
        intro hsame
        exact h (congrArg some (beq_iff_eq.mp hsame))
      exact ⟨List.takeWhile_cons_of_neg hother, List.dropWhile_cons_of_neg hother⟩
  have htake : (List.replicate n line ++ rest).takeWhile (· == line) = List.replicate n line := by
    rw [List.takeWhile_append_of_pos hcopies, hbehind.1, List.append_nil]
  have hdrop : (List.replicate n line ++ rest).dropWhile (· == line) = rest := by
    rw [List.dropWhile_append_of_pos hcopies, hbehind.2]
  simp only [next?, htake, hdrop, List.length_replicate]

/-- **What one step does**: the next run begins where the walk stands and takes lines of
the table, all alike and at least one, and the walk goes on behind it, where another line
begins. Whatever does this is the step. -/
theorem next?_eq_some_iff {w w' : LineRuns} {run : LineRun} :
    w.next? = some (run, w') ↔
      (run.start = w.offset ∧ run.start < run.stop ∧ run.stop = w'.offset) ∧
        w.rest = run.lines ++ w'.rest ∧ w'.rest.head? ≠ some run.line := by
  obtain ⟨offset, table⟩ := w
  constructor
  · intro h
    cases table with
    | nil => contradiction
    | cons line table =>
      obtain ⟨n, rest, rfl, hother⟩ := exists_copies line table
      rw [next?_copies offset n hother] at h
      obtain ⟨rfl, rfl⟩ := Prod.mk.inj (Option.some.inj h)
      have hnonempty : offset < offset + 1 + n := by omega
      have hcount : offset + 1 + n - offset = n + 1 := by omega
      refine ⟨⟨rfl, hnonempty, rfl⟩, ?_, hother⟩
      rw [LineRun.lines, hcount, List.replicate_succ, List.cons_append]
  · rintro ⟨⟨rfl, hnonempty, hstop⟩, htable, hother⟩
    obtain ⟨offset', rest⟩ := w'
    obtain ⟨n, hlength, hlines⟩ := exists_lines_eq_cons hnonempty
    dsimp only at hstop htable hother
    subst hstop
    rw [htable, hlines, List.cons_append, next?_copies _ n hother, ← hlength]

/-- **What a walk hands out is consecutive from where it stands, and, written out, is the
table.** The induction is on the length of the table, since a step takes at least one line. -/
theorem consecutive_toList (w : LineRuns) :
    Consecutive w.offset w.toList ∧ expand w.toList = w.rest := by
  induction hn : w.rest.length using Nat.strongRecOn generalizing w with
  | ind n ih =>
    subst hn
    rw [toList_eq]
    cases hnext : w.next? with
    | none =>
      obtain ⟨offset, table⟩ := w
      cases table with
      | nil => exact ⟨.nil offset, rfl⟩
      | cons line rest => contradiction
    | some next =>
      obtain ⟨run, w'⟩ := next
      obtain ⟨⟨hstart, hnonempty, hstop⟩, htable, hline⟩ := next?_eq_some_iff.mp hnext
      obtain ⟨htail, hexpand⟩ := ih _ (length_rest_lt hnext) w' rfl
      rw [← hstop] at htail
      rw [← hexpand] at hline
      rw [← hstart, htable, ← hexpand]
      exact ⟨.cons hnonempty (htail.head?_expand_ne_iff.mp hline) htail, expand_cons ..⟩

/-- **A walk over runs that are written out finds these runs**: it stops where the line
changes, and so does each run. -/
theorem toList_expand {offset : Nat} {runs : List LineRun} (h : Consecutive offset runs) :
    toList { offset, rest := expand runs } = runs := by
  induction h with
  | nil offset => exact toList_eq _
  | @cons run runs hnonempty hline htail ih =>
    have hnext : next? { offset := run.start, rest := expand (run :: runs) } =
        some (run, { offset := run.stop, rest := expand runs }) :=
      next?_eq_some_iff.mpr
        ⟨⟨rfl, hnonempty, rfl⟩, expand_cons run runs, htail.head?_expand_ne_iff.mpr hline⟩
    rw [toList_eq, hnext]
    dsimp only
    rw [ih]

/-! ## Asking again and again -/

/-- The answers to a number of calls, one after another. A walk that has no run left stays
where it is. -/
def answers (w : LineRuns) : Nat → List (Option LineRun)
  | 0 => []
  | n + 1 =>
    match w.next? with
    | none => none :: answers w n
    | some (run, w') => some run :: answers w' n

/-- **Calls hand out the runs in order, and nothing ever after.** -/
theorem answers_eq (w : LineRuns) (n : Nat) :
    w.answers n = (List.range n).map (w.toList[·]?) := by
  induction n generalizing w with
  | zero => rfl
  | succ n ih =>
    rw [answers, List.range_succ_eq_map, List.map_cons, List.map_map]
    cases hnext : w.next? with
    | none =>
      have hnil : w.toList = [] := by rw [toList_eq, hnext]
      dsimp only
      rw [ih, hnil]
      rfl
    | some next =>
      obtain ⟨run, w'⟩ := next
      have hcons : w.toList = run :: w'.toList := by rw [toList_eq, hnext]
      dsimp only
      rw [ih, hcons]
      rfl

end LineRuns

/-! ## The runs of a block -/

namespace CodeBlock

open LineRuns (Consecutive expand)

/-- The runs divide the bytes of the block: none is empty, they begin at the first byte,
each begins where the one before it stops, and they end behind the last byte. All bytes of
a run are on its line, and neighbouring runs are on different lines. -/
structure IsRunLength (b : CodeBlock) (runs : List LineRun) : Prop where
  nonempty : ∀ run ∈ runs, run.start < run.stop
  first : ∀ run ∈ runs.head?, run.start = 0
  next : runs.IsChain fun a b => b.start = a.stop
  -- Without a run there is no byte.
  last : runs.getLast?.elim 0 LineRun.stop = b.size
  lineAt : ∀ run ∈ runs, ∀ offset, run.start ≤ offset → offset < run.stop →
    b.lineAt? offset = some run.line
  changes : runs.IsChain fun a b => a.line ≠ b.line

theorem lineAt?_eq_getElem? (b : CodeBlock) (offset : Nat) :
    b.lineAt? offset = b.lines.toList[offset]? := Array.getElem?_toList.symm

/-- Runs divide a block exactly if they are consecutive and written out are its lines. -/
theorem isRunLength_iff {b : CodeBlock} (h : b.IsAligned) {runs : List LineRun} :
    b.IsRunLength runs ↔ Consecutive 0 runs ∧ expand runs = b.lines.toList := by
  have hsize : b.size = b.lines.toList.length := h
  constructor
  · intro hruns
    have hconsecutive : Consecutive 0 runs :=
      LineRuns.consecutive_iff.mpr ⟨hruns.nonempty, hruns.first, hruns.next, hruns.changes⟩
    have hlength : (expand runs).length = b.lines.toList.length := by
      rw [← hsize, ← hruns.last, ← hconsecutive.length_expand, Nat.zero_add]
    refine ⟨hconsecutive, List.ext_getElem? fun i => ?_⟩
    by_cases hi : i < (expand runs).length
    · obtain ⟨run, hrun, hstart, hstop⟩ := hconsecutive.exists_mem hi
      rw [Nat.zero_add] at hstart hstop
      have hline := hconsecutive.getElem?_expand hrun hstart hstop
      rw [Nat.sub_zero] at hline
      rw [hline, ← lineAt?_eq_getElem?, hruns.lineAt run hrun i hstart hstop]
    · rw [List.getElem?_eq_none (by omega), List.getElem?_eq_none (by omega)]
  · rintro ⟨hconsecutive, hexpand⟩
    obtain ⟨hnonempty, hfirst, hnext, hchanges⟩ := LineRuns.consecutive_iff.mp hconsecutive
    refine ⟨hnonempty, hfirst, hnext, ?_, ?_, hchanges⟩
    · rw [← hconsecutive.length_expand, hexpand, hsize, Nat.zero_add]
    · intro run hrun offset hstart hstop
      have hline := hconsecutive.getElem?_expand hrun hstart hstop
      rw [lineAt?_eq_getElem?, ← hexpand]
      exact hline

/-- **The runs of a block are the run-length encoding of its lines**, whatever was done
with the block: they are the one division of its bytes into runs as long as possible, and
written out they are its line table. They are handed out in order, and after the last one
every call is answered with nothing. -/
theorem lineRuns_runLength (ops : List Op) :
    let b := empty.after ops
    (∀ runs, b.IsRunLength runs ↔ runs = b.lineRuns.toList) ∧
      expand b.lineRuns.toList = b.lines.toList ∧
      ∀ n, b.lineRuns.answers n = (List.range n).map (b.lineRuns.toList[·]?) := by
  intro b
  obtain ⟨hconsecutive, hexpand⟩ := b.lineRuns.consecutive_toList
  refine ⟨?_, hexpand, b.lineRuns.answers_eq⟩
  intro runs
  rw [isRunLength_iff (isAligned_after ops)]
  constructor
  · rintro ⟨hruns, htable⟩
    rw [lineRuns, ← htable, LineRuns.toList_expand hruns]
  · rintro rfl
    exact ⟨hconsecutive, hexpand⟩

/-- A line that comes back has a run of its own. -/
example : ((empty.after [.append 0 1, .append 1 1, .append 2 2, .append 3 1]).lineRuns.answers 4) =
    [some ⟨0, 2, 1⟩, some ⟨2, 3, 2⟩, some ⟨3, 4, 1⟩, none] := by decide

end CodeBlock

end ScriptFront
