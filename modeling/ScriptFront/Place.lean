/-
Places in a source text, counted in bytes and lines.

A place is what a reader knows about the text it has passed: how many bytes,
and on which line it now stands. Both are functions of the passed text alone:
passing `s` adds the bytes of `s` (`Place.offset_through`) and one line for
each line feed, up to the last line number (`Place.line_through`).
-/

set_option autoImplicit false

namespace ScriptFront

/-- The number of bytes a text takes in UTF-8. -/
def byteLength (s : List Char) : Nat := s.foldr (fun c n => c.utf8Size + n) 0

@[simp] theorem byteLength_nil : byteLength [] = 0 := rfl

@[simp] theorem byteLength_cons (c : Char) (s : List Char) :
    byteLength (c :: s) = c.utf8Size + byteLength s := rfl

@[simp] theorem byteLength_append (s t : List Char) :
    byteLength (s ++ t) = byteLength s + byteLength t := by
  induction s with
  | nil => exact (Nat.zero_add _).symm
  | cons c s ih => rw [List.cons_append, byteLength_cons, byteLength_cons, ih, Nat.add_assoc]

/-- A position between two characters of a text. -/
structure Place where
  offset : Nat
  -- The line it is on, from one.
  line : Nat
deriving DecidableEq, Repr

namespace Place

/-- The last line number; all later lines share it. -/
def lastLine : Nat := 0xFFFFFFFF

/-- The place before the first character. -/
def start : Place := { offset := 0, line := 1 }

/-- The place after one more character. -/
def advance (p : Place) (c : Char) : Place where
  offset := p.offset + c.utf8Size
  line := if c = '\n' then min (p.line + 1) lastLine else p.line

/-- The place after a stretch of text. -/
def through (p : Place) (s : List Char) : Place := s.foldl advance p

@[simp] theorem through_nil (p : Place) : p.through [] = p := rfl

@[simp] theorem through_cons (p : Place) (c : Char) (s : List Char) :
    p.through (c :: s) = (p.advance c).through s := rfl

theorem through_append (p : Place) (s t : List Char) :
    p.through (s ++ t) = (p.through s).through t := by
  simp [through]

/-- Passing a text moves the offset by its bytes. -/
theorem offset_through (p : Place) (s : List Char) :
    (p.through s).offset = p.offset + byteLength s := by
  induction s generalizing p with
  | nil => simp
  | cons c s ih =>
    rw [through_cons, ih, byteLength_cons]
    exact Nat.add_assoc ..

/-- Passing a text moves the line by its newlines, up to the last line that can be counted. -/
theorem line_through {p : Place} (h : p.line ≤ lastLine) (s : List Char) :
    (p.through s).line = min (p.line + s.count '\n') lastLine := by
  induction s generalizing p with
  | nil => exact (Nat.min_eq_left h).symm
  | cons c s ih =>
    by_cases hc : c = '\n'
    · subst hc
      have bounded : (p.advance '\n').line ≤ lastLine := Nat.min_le_right ..
      have step : (p.advance '\n').line = min (p.line + 1) lastLine := rfl
      rw [through_cons, ih bounded, step, List.count_cons_self]
      omega
    · have step : (p.advance c).line = p.line := if_neg hc
      rw [through_cons, ih (step ▸ h), step, List.count_cons_of_ne hc]

end Place

end ScriptFront
