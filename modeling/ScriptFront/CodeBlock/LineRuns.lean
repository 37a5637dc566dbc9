/-
Runs of code from one source line.

Neighbouring bytes often come from the same line. `LineRuns` walks a line table
from its start and hands out the longest stretch of equal lines each time: a
run starts where the one before it stopped, and after the last there is none.
-/
import ScriptFront.CodeBlock.Basic

set_option autoImplicit false

namespace ScriptFront

/-- A stretch of bytes that come from one source line. -/
structure LineRun where
  -- The offset of the first byte.
  start : Nat
  -- The offset just past the last byte.
  stop : Nat
  line : Nat
deriving DecidableEq, Repr

/-- A walk over a line table, from one run to the next. -/
structure LineRuns where
  offset : Nat
  rest : List Nat

namespace LineRuns

/-- The next run, and the walk after it. -/
def next? (w : LineRuns) : Option (LineRun × LineRuns) :=
  match w.rest with
  | [] => none
  | line :: rest =>
    let stop := w.offset + 1 + (rest.takeWhile (· == line)).length
    some ({ start := w.offset, stop, line },
      { offset := stop, rest := rest.dropWhile (· == line) })

/-- A run takes at least one line, so there are fewer left. -/
theorem length_rest_lt {w w' : LineRuns} {run : LineRun} (h : w.next? = some (run, w')) :
    w'.rest.length < w.rest.length := by
  unfold next? at h
  split at h
  · contradiction
  · next line rest hrest =>
    simp only [Option.some.injEq, Prod.mk.injEq] at h
    have shorter := (List.dropWhile_suffix (l := rest) (· == line)).length_le
    rw [← h.2, hrest]
    simp only [List.length_cons]
    omega

/-- The runs still to come, put after those already found. -/
def collect (w : LineRuns) (found : Array LineRun) : Array LineRun :=
  match h : w.next? with
  | none => found
  | some (run, w') =>
    have := length_rest_lt h
    collect w' (found.push run)
termination_by w.rest.length

/-- The runs still to come. -/
def toList (w : LineRuns) : List LineRun := (w.collect #[]).toList

theorem collect_eq (w : LineRuns) (found : Array LineRun) :
    w.collect found = found ++ w.toList.toArray := by
  induction hn : w.rest.length using Nat.strongRecOn generalizing w found with
  | ind n ih =>
    subst hn
    unfold toList
    rw [collect, collect]
    split
    · simp
    · next run w' h =>
      have shorter := length_rest_lt h
      rw [ih _ shorter w' _ rfl, ih _ shorter w' _ rfl]
      simp

/-- The next run, if any, and then the runs after it. -/
theorem toList_eq (w : LineRuns) :
    w.toList =
      match w.next? with
      | none => []
      | some (run, w') => run :: w'.toList := by
  unfold toList
  rw [collect]
  split
  · next h => simp [h]
  · next run w' h => simp [h, collect_eq]

end LineRuns

/-- The walk over the line table of a block. -/
def CodeBlock.lineRuns (b : CodeBlock) : LineRuns := { offset := 0, rest := b.lines.toList }

end ScriptFront
