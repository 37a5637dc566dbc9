/-
Fixed-width columns of text.

A field is at least as wide as asked for: short texts are filled with blanks,
long ones keep their characters unless the field has a limit, which cuts first
and fills afterwards. Widths count characters.
-/

set_option autoImplicit false

namespace ScriptFront.Text

/-- Where a text stands in a field that is wider than it. -/
inductive Alignment where
  | left
  | right
  | center
deriving DecidableEq, Repr

/-- `n` copies of a character. -/
def replicate (n : Nat) (c : Char) : String :=
  String.ofList (List.replicate n c)

@[simp] theorem toList_replicate (n : Nat) (c : Char) :
    (replicate n c).toList = List.replicate n c := by
  simp [replicate]

/-- A column of a text. -/
structure Field where
  width : Nat
  alignment : Alignment := .left
  limit : Option Nat := none

namespace Field

/-- The part of the text that the field keeps. -/
def keep (f : Field) (s : String) : String :=
  match f.limit with
  | none => s
  | some n => String.ofList (s.toList.take n)

/-- The text in its field. -/
def fill (f : Field) (s : String) : String :=
  let kept := f.keep s
  let blanks := f.width - kept.length
  match f.alignment with
  | .left => kept ++ replicate blanks ' '
  | .right => replicate blanks ' ' ++ kept
  | .center => replicate (blanks / 2) ' ' ++ kept ++ replicate (blanks - blanks / 2) ' '

end Field

/-- The text at the left of a field of the given width. -/
def padRight (width : Nat) (s : String) : String :=
  Field.fill { width } s

/-- The text at the right of a field of the given width. -/
def padLeft (width : Nat) (s : String) : String :=
  Field.fill { width, alignment := .right } s

@[simp] theorem toList_padRight (width : Nat) (s : String) :
    (padRight width s).toList = s.toList ++ List.replicate (width - s.length) ' ' := by
  simp [padRight, Field.fill, Field.keep]

@[simp] theorem toList_padLeft (width : Nat) (s : String) :
    (padLeft width s).toList = List.replicate (width - s.length) ' ' ++ s.toList := by
  simp [padLeft, Field.fill, Field.keep]

/-- A natural number in base ten, with zeros in front up to the given width. -/
def zeroPadded (width n : Nat) : String :=
  let digits := toString n
  replicate (width - digits.length) '0' ++ digits

@[simp] theorem toList_zeroPadded (width n : Nat) :
    (zeroPadded width n).toList =
      List.replicate (width - (toString n).length) '0' ++ (toString n).toList := by
  simp [zeroPadded]

end ScriptFront.Text
