/-
Where a path puts a file: a directory, and a name within it.

A path is cut at its slashes. An empty piece and the piece `.` lead nowhere, so
at the end of a path they say nothing about the name. Two openings keep their
meaning: a slash starts at the root, and a leading `.` is the directory itself.
What is left of the path before the name is the directory, written as it was.

A path without a piece that leads somewhere is the root or is empty, and then
names no file in any directory; with a leading `.` it names nothing within that
directory. The name is also empty for `..`, which leads up and names no entry.
-/
import ScriptFront.Text.Split

set_option autoImplicit false

namespace ScriptFront.File

/-! ## Pieces of a path -/

/-- Whether a piece of a path leads nowhere. -/
def staysPut (piece : String) : Bool := piece = "" || piece = "."

/-- The pieces up to the last one that leads somewhere. -/
def settled (pieces : List String) : List String :=
  (pieces.reverse.dropWhile staysPut).reverse

/-- What a path opens with when it does not start with a plain piece, and the
pieces after it. -/
def opening : List String → List String × List String
  | "" :: more => ([""], more)
  | "." :: more => (["."], more)
  | pieces => ([], pieces)

/-! ## Targets -/

/-- A directory and a name within it. -/
structure Target where
  directory : String
  -- The name, which is empty if the path has none.
  name : String
deriving DecidableEq, Repr

namespace Target

/-- The path of the directory that pieces lead to. -/
def directoryOf (pieces : List String) : String :=
  match pieces with
  | [] => "."
  | [""] => "/"
  | pieces => Text.joined '/' pieces

/-- Where a path puts a file, if it is a path to something in a directory. -/
def ofPath? (path : String) : Option Target :=
  let (start, body) := opening (Text.pieces '/' path)
  match (settled body).reverse with
  | [] => if start = ["."] then some { directory := ".", name := "" } else none
  | last :: before =>
    some {
      directory := directoryOf (start ++ settled before.reverse)
      name := if last = ".." then "" else last }

/-- The path of a name in a directory. -/
def join (directory name : String) : String :=
  if directory.toList.getLast? = some '/' then directory ++ name else directory ++ "/" ++ name

/-- The path of the `n`-th draft: a file beside the target whose name is the
target's with a mark and a number. -/
def draft (t : Target) (n : Nat) : String :=
  join t.directory (t.name ++ ".tmp" ++ toString n)

/-- A plain name, a name after a leading dot, a name before idle pieces, a way up,
and two paths that name nothing in a directory. -/
example :
    ["o", "./d/o", "d//o/.", "d/..", "/", ""].map ofPath? =
      [some ⟨".", "o"⟩, some ⟨"./d", "o"⟩, some ⟨"d", "o"⟩, some ⟨"d", ""⟩, none, none] := by
  decide +kernel

end Target

end ScriptFront.File
