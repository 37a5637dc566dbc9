/-
Listings of compiled code.

A listing has a header, a row for each instruction byte and, if there are
constants, a row for each of those. The row of a byte shows its offset, its
source line and the byte; a bar stands for the line when it is that of the byte
before. A whole block is listed run by run, a single byte by looking at the
line of its neighbour.
-/
import ScriptFront.CodeBlock.LineRuns
import ScriptFront.Number.General
import ScriptFront.Text.Hex

set_option autoImplicit false

namespace ScriptFront.Listing

/-- The width of the column that holds an offset or an index. -/
def indexWidth : Nat := 4

/-- The width of the column that holds a source line. -/
def lineWidth : Nat := 4

/-- What stands in place of a source line that has not changed. -/
def sameLine : String := "   |"

/-! ## Rows -/

/-- The row of a byte, with its source line if that is to be shown. -/
def byteRow (offset : Nat) (byte : UInt8) (line : Option Nat) : String :=
  let shown := line.elim sameLine fun line => Text.padLeft lineWidth (toString line)
  Text.zeroPadded indexWidth offset ++ " " ++ shown ++ " 0x" ++ Text.hexByte byte ++ "\n"

/-- The row of a constant. -/
def constantRow (index : Nat) (x : Number.Binary64) : String :=
  "[" ++ Text.zeroPadded indexWidth index ++ "] " ++ x.text ++ "\n"

/-! ## A single byte -/

/-- The source line to show for the byte at an offset: none if the byte before
has the same. -/
def lineShown (b : CodeBlock) (offset : Nat) : Option Nat :=
  let line := (b.lineAt? offset).getD 0
  if 0 < offset ∧ b.lineAt? (offset - 1) = some line then none else some line

/-- The text so far with the row of the byte at an offset, and the next offset.
Where there is no byte, both stay as they are. -/
def step (b : CodeBlock) (offset : Nat) (out : String) : Nat × String :=
  match b.code.get? offset with
  | none => (offset, out)
  | some byte => (offset + 1, out ++ byteRow offset byte (lineShown b offset))

/-- A step that moves was taken inside the code, and by one byte. -/
theorem fst_step_of_ne {b : CodeBlock} {offset : Nat} {out : String}
    (h : (step b offset out).1 ≠ offset) :
    (step b offset out).1 = offset + 1 ∧ offset < b.size := by
  unfold step at h ⊢
  split
  · next none => simp [none] at h
  · next byte some =>
    exact ⟨rfl, (Array.getElem?_eq_some_iff.1 some).1⟩

/-- The text so far with the rows of the bytes from an offset on, and the offset
reached: steps are taken until one does not move. -/
def walk (b : CodeBlock) (offset : Nat) (out : String) : Nat × String :=
  let next := step b offset out
  if h : next.1 = offset then next
  else
    have := fst_step_of_ne h
    walk b next.1 next.2
termination_by b.size - offset

/-! ## A whole block -/

/-- The rows of a run, as far as there are bytes for it. -/
def runRows (b : CodeBlock) (run : LineRun) : String :=
  (b.code.toArray.extract run.start run.stop).toList.zipIdx run.start |>.foldl
    (fun out (byte, offset) =>
      out ++ byteRow offset byte (if offset = run.start then some run.line else none))
    ""

/-- The line that warns of a line table of the wrong length. -/
def warning (b : CodeBlock) : String :=
  match b.check with
  | .ok () => ""
  | .error e => ";; " ++ e.message ++ "\n"

/-- The rows of the constants, under a line of their own if there are any. -/
def constantRows (constants : List Number.Binary64) : String :=
  if constants.isEmpty then ""
  else
    ";; constants\n"
      ++ String.join (constants.zipIdx.map fun (x, index) => constantRow index x)

/-- The listing of a block under a name. -/
def block (b : CodeBlock) (name : String) : String :=
  "== " ++ name ++ " ==\n" ++ warning b
    ++ String.join (b.lineRuns.toList.map (runRows b)) ++ constantRows b.constants.toList

end ScriptFront.Listing
