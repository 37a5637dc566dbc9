/-
Trees of files and directories.

A tree says what lies at each location, where a location is the list of names
that leads there from the root. The root is always a directory. Paths are
followed name by name from the root or from the working directory; every name
but the last must be that of a directory.

The operations treat the last name of a path with care. One that makes or takes
away a file refuses a path that ends in a slash, in `.` or in `..`, since no file
is meant by it. A refused operation leaves no other tree behind: it has none.

Files and directories have no owners and no modes, and no device is ever busy or
full. So an operation is refused only for what the tree holds, or does not hold, at
the path it is given. Names are Unicode texts, and so are paths.
-/
import ScriptFront.File.Fault
import ScriptFront.Text.Split

set_option autoImplicit false

namespace ScriptFront.File

/-- The names that lead from the root to a place. -/
abbrev Location := List String

/-- What lies at a location. -/
inductive Entry where
  | file (content : ByteArray)
  | directory

/-- Files and directories by location. -/
structure Tree where
  entries : List (Location × Entry)
  -- The directory that paths start from unless they open with a slash.
  work : Location

namespace Tree

/-! ## Locations -/

/-- What lies at a location, if anything. -/
def find? (t : Tree) (l : Location) : Option Entry :=
  if l = [] then some .directory else t.entries.lookup l

/-- The tree with something else at a location. -/
def put (t : Tree) (l : Location) (e : Entry) : Tree :=
  { t with entries := (l, e) :: t.entries.filter (·.1 ≠ l) }

/-- The tree with nothing at a location. -/
def erase (t : Tree) (l : Location) : Tree :=
  { t with entries := t.entries.filter (·.1 ≠ l) }

theorem lookup_filter_self (entries : List (Location × Entry)) (l : Location) :
    (entries.filter (·.1 ≠ l)).lookup l = none := by
  induction entries with
  | nil => rfl
  | cons p entries ih =>
    by_cases h : p.1 = l
    · rw [List.filter_cons_of_neg (by simpa using h)]
      exact ih
    · have : (l == p.1) = false := by simpa using fun e => h e.symm
      rw [List.filter_cons_of_pos (by simpa using h), List.lookup_cons, this]
      exact ih

theorem lookup_filter_of_ne (entries : List (Location × Entry)) {l k : Location} (h : k ≠ l) :
    (entries.filter (·.1 ≠ l)).lookup k = entries.lookup k := by
  induction entries with
  | nil => rfl
  | cons p entries ih =>
    obtain ⟨j, e⟩ := p
    by_cases hj : j = l
    · subst hj
      have : (k == j) = false := by simpa using h
      simpa [List.lookup_cons, this] using ih
    · simp only [List.lookup_cons, ne_eq, hj, not_false_eq_true, decide_true,
        List.filter_cons_of_pos]
      split
      · rfl
      · exact ih

/-- What is put somewhere is there. -/
theorem find?_put_self (t : Tree) {l : Location} (h : l ≠ []) (e : Entry) :
    (t.put l e).find? l = some e := by
  simp [find?, put, h]

/-- Everything else stays as it was. -/
theorem find?_put_of_ne (t : Tree) {l k : Location} (h : k ≠ l) (e : Entry) :
    (t.put l e).find? k = t.find? k := by
  have : (k == l) = false := by simpa using h
  unfold find? put
  split
  · rfl
  · simpa only [List.lookup_cons, this] using lookup_filter_of_ne t.entries h

/-- What is erased is gone. -/
theorem find?_erase_self (t : Tree) {l : Location} (h : l ≠ []) : (t.erase l).find? l = none := by
  simpa only [find?, erase, h, if_false] using lookup_filter_self t.entries l

/-- Everything else stays. -/
theorem find?_erase_of_ne (t : Tree) {l k : Location} (h : k ≠ l) :
    (t.erase l).find? k = t.find? k := by
  unfold find? erase
  split
  · rfl
  · exact lookup_filter_of_ne t.entries h

/-- Whether a directory lies at a location. -/
def hasDirectory (t : Tree) (l : Location) : Bool :=
  match t.find? l with
  | some .directory => true
  | _ => false

/-! ## Following a path -/

/-- The greatest number of bytes in a name. -/
def nameLimit : Nat := 255

/-- The number of bytes from which a path is too long. -/
def pathLimit : Nat := 4096

/-- The location of a name in a directory. -/
def child (directory : Location) (name : String) : Except Fault Location :=
  if nameLimit < name.utf8ByteSize then .error .nameTooLong else .ok (directory ++ [name])

/-- The directory that a piece of a path leads to from a directory. -/
def enter (t : Tree) (directory : Location) (piece : String) : Except Fault Location :=
  match piece with
  | "" | "." => .ok directory
  | ".." => .ok directory.dropLast
  | name => do
    let l ← child directory name
    match t.find? l with
    | some .directory => .ok l
    | some (.file _) => .error .notDirectory
    | none => .error .notFound

/-- The directory that pieces of a path lead to, one after another. -/
def walk (t : Tree) (start : Location) (pieces : List String) : Except Fault Location :=
  pieces.foldlM t.enter start

/-- The directory a path starts from, and its pieces, if the path can be one. -/
def begin (t : Tree) (path : String) : Except Fault (Location × List String) :=
  if '\x00' ∈ path.toList then .error .nullInPath
  else if path = "" then .error .notFound
  else if pathLimit ≤ path.utf8ByteSize then .error .nameTooLong
  else .ok (if path.toList.head? = some '/' then [] else t.work, Text.pieces '/' path)

/-- What a path leads to: its location, and what lies there. -/
def locate (t : Tree) (path : String) : Except Fault (Location × Entry) := do
  let (start, pieces) ← t.begin path
  match pieces.reverse with
  | [] => .error .notFound
  | last :: before =>
    let directory ← t.walk start before.reverse
    match last with
    | "" | "." => .ok (directory, .directory)
    | ".." => .ok (directory.dropLast, .directory)
    | name => do
      let l ← child directory name
      match t.find? l with
      | some e => .ok (l, e)
      | none => .error .notFound

/-- Where a path would put an entry. -/
inductive Spot where
  -- At a directory that is there whatever happens.
  | fixed
  -- At a name in a directory; `closed` if a slash follows the name.
  | name (directory : Location) (name : String) (closed : Bool)

/-- Where a path would put an entry, with the directories on the way followed. -/
def spot (t : Tree) (path : String) : Except Fault Spot := do
  let (start, pieces) ← t.begin path
  match pieces.reverse.dropWhile (· = "") with
  | [] => .ok .fixed
  | last :: before =>
    let directory ← t.walk start before.reverse
    if last = "." ∨ last = ".." then .ok .fixed
    else .ok (.name directory last (pieces.getLast? = some ""))

/-! ## Operations -/

/-- The content of the file at a path. A directory can be opened, not read. -/
def read (t : Tree) (path : String) : Except ReadFault ByteArray :=
  match t.locate path with
  | .error cause => .error (.opening cause)
  | .ok (_, .directory) => .error (.reading .isDirectory)
  | .ok (_, .file content) => .ok content

/-- Whether a path leads to anything. -/
def isThere (t : Tree) (path : String) : Bool := (t.locate path).isOk

/-- Where a path would put a file, unless a directory is in the way. -/
def spotOfFile (t : Tree) (path : String) : Except Fault Location := do
  match ← t.spot path with
  | .fixed => .error .isDirectory
  | .name _ _ true => .error .isDirectory
  | .name directory name false =>
    let l ← child directory name
    if t.hasDirectory l then .error .isDirectory else .ok l

/-- The tree with a file of the given content at a path. -/
def write (t : Tree) (path : String) (content : ByteArray) : Except Fault Tree := do
  return t.put (← t.spotOfFile path) (.file content)

/-- The tree with an empty file at a path. -/
def create (t : Tree) (path : String) : Except Fault Tree := t.write path .empty

/-- The file at a path that names it: its location and content. -/
def named (t : Tree) (path : String) : Except Fault (Location × ByteArray) := do
  match ← t.spot path with
  | .fixed => .error .isDirectory
  | .name directory name closed =>
    let l ← child directory name
    match t.find? l with
    | none => .error .notFound
    | some .directory => .error .isDirectory
    | some (.file content) => if closed then .error .notDirectory else .ok (l, content)

/-- The tree without the file at a path. -/
def remove (t : Tree) (path : String) : Except Fault Tree := do
  let (l, _) ← t.named path
  return t.erase l

/-- The tree with a file moved from one path to another. -/
def rename (t : Tree) (source path : String) : Except Fault Tree := do
  let (l, content) ← t.named source
  match ← t.spot path with
  | .fixed => .error .busy
  | .name directory name closed =>
    let k ← child directory name
    if closed then .error .notDirectory
    else if t.hasDirectory k then .error .isDirectory
    else .ok ((t.erase l).put k (.file content))

/-- The tree with the content of the file at one path also at another. -/
def copy (t : Tree) (source path : String) : Except Fault Tree := do
  match ← t.locate source with
  | (_, .directory) => .error .isDirectory
  | (_, .file content) => t.write path content

/-! ## Making and listing trees -/

/-- The locations passed on the way from the root to a location, itself the last. -/
def way (l : Location) : List Location := (List.range l.length).map fun n => l.take (n + 1)

/-- The tree with a directory at a location and wherever one is missing on the way. -/
def withDirectory (t : Tree) (l : Location) : Tree :=
  (way l).foldl (fun t l => if (t.find? l).isSome then t else t.put l .directory) t

/-- The tree with a file at a location, and directories on the way. -/
def withFile (t : Tree) (l : Location) (content : ByteArray) : Tree :=
  (t.withDirectory l.dropLast).put l (.file content)

/-- The tree that has only its working directory and the way there. -/
def bare (work : Location) : Tree := withDirectory { entries := [], work } work

/-- What lies below the working directory, by the names that lead on from there. -/
def listing (t : Tree) : List (Location × Entry) :=
  t.entries.filterMap fun (l, e) =>
    if t.work.isPrefixOf l ∧ l ≠ t.work then some (l.drop t.work.length, e) else none

end Tree

end ScriptFront.File
