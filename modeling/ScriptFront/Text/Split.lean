/-
Texts cut at a separator.

A text with `n` separators has `n + 1` pieces, some of them perhaps empty, and
putting the separators back between the pieces gives the text
(`intercalate_split`). Blank characters at the ends of a piece can be taken off.
-/

set_option autoImplicit false

namespace ScriptFront.Text

/-! ## Pieces -/

/-- The pieces between the separators. -/
def split (separator : Char) : List Char → List (List Char)
  | [] => [[]]
  | c :: s =>
    if c = separator then [] :: split separator s
    else
      match split separator s with
      | [] => [[c]]
      | piece :: pieces => (c :: piece) :: pieces

theorem split_ne_nil (separator : Char) (s : List Char) : split separator s ≠ [] := by
  cases s with
  | nil => simp [split]
  | cons c s =>
    unfold split
    split
    · simp
    · split <;> simp

/-- Nothing is lost: the separators can be put back. -/
theorem intercalate_split (separator : Char) (s : List Char) :
    List.intercalate [separator] (split separator s) = s := by
  induction s with
  | nil => rfl
  | cons c s ih =>
    unfold split
    split
    · next hc =>
      subst hc
      cases hs : split c s with
      | nil => exact absurd hs (split_ne_nil c s)
      | cons piece pieces =>
        rw [hs] at ih
        simpa [List.intercalate] using ih
    · cases hs : split separator s with
      | nil => exact absurd hs (split_ne_nil separator s)
      | cons piece pieces =>
        rw [hs] at ih
        cases pieces with
        | nil => simpa [List.intercalate] using ih
        | cons next more => simpa [List.intercalate, List.intersperse] using ih

/-- The pieces of a text between the separators. -/
def pieces (separator : Char) (s : String) : List String :=
  (split separator s.toList).map String.ofList

/-- Texts put one after another, with a separator between neighbours. -/
def joined (separator : Char) (parts : List String) : String :=
  String.intercalate (String.singleton separator) parts

/-! ## Blank ends -/

/-- Whether a character shows as nothing but room: the plain blank, tab, line
ends and the typographic spaces. -/
def isRoom (c : Char) : Bool :=
  [(0x09, 0x0D), (0x20, 0x20), (0x85, 0x85), (0xA0, 0xA0), (0x1680, 0x1680), (0x2000, 0x200A),
    (0x2028, 0x2029), (0x202F, 0x202F), (0x205F, 0x205F), (0x3000, 0x3000)].any
      fun (first, last) => first ≤ c.toNat && c.toNat ≤ last

/-- The text without the room at both ends. -/
def trimmed (s : String) : String :=
  String.ofList (((s.toList.dropWhile isRoom).reverse.dropWhile isRoom).reverse)

/-- Whether `part` occurs in a text. -/
def occurs (part : List Char) : List Char → Bool
  | [] => part.isEmpty
  | c :: s => part.isPrefixOf (c :: s) || occurs part s

end ScriptFront.Text
