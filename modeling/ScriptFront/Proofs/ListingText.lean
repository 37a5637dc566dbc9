/-
A listing tells what it lists.

Two blocks with the same listing have the same bytes, the same lines and constants
that show the same. Columns may be wider than they are meant to be and a bar may
stand for a line, but each column ends where its digits do, and a reader who goes
from row to row has the line that a bar stands for in hand: this is what the
induction over the rows carries (`rowsFrom_append_inj`). A row of a byte begins with
a digit, so no row is taken for the line above the constants. The text of a number
has no line feed in it (`Number.Binary64.newline_notMem_text`), so the row of a
constant ends where its text does.
-/
import ScriptFront.Proofs.ListingRows
import ScriptFront.Proofs.TextDump

set_option autoImplicit false

namespace ScriptFront

/-! ## Numbers on one line -/

namespace Number

theorem mem_of_mem_dropTrailingZeros {c : Char} {s : List Char} (h : c ∈ dropTrailingZeros s) :
    c ∈ s := by
  unfold dropTrailingZeros at h
  rw [List.mem_reverse] at h
  exact List.mem_reverse.mp ((List.dropWhile_sublist _).subset h)

theorem newline_notMem_pointed (n places : Nat) : '\n' ∉ (pointed n places).toList := by
  have hwhole := newline_notMem_toString (n / Nat.pow 10 places)
  have hfraction := newline_notMem_zeroPadded places (n % Nat.pow 10 places)
  unfold pointed
  dsimp only
  rw [String.toList_append, List.mem_append, not_or]
  refine ⟨hwhole, ?_⟩
  split
  · exact List.not_mem_nil
  · simp only [String.toList_append, String.toList_ofList, List.mem_append, not_or]
    exact ⟨by decide, mt mem_of_mem_dropTrailingZeros hfraction⟩

theorem newline_notMem_exponentText (e : Int) : '\n' ∉ (exponentText e).toList := by
  unfold exponentText
  rw [String.toList_append, List.mem_append, not_or]
  refine ⟨?_, newline_notMem_zeroPadded _ _⟩
  split
  · decide
  · decide

/-- A number is written on one line. -/
theorem newline_notMem_general (r : Ratio) : '\n' ∉ (general r).toList := by
  unfold general
  dsimp only
  split
  · exact newline_notMem_pointed _ _
  · unfold Scientific.text
    rw [String.toList_append, String.toList_append, List.mem_append, List.mem_append, not_or,
      not_or]
    exact ⟨⟨newline_notMem_pointed _ _, by decide⟩, newline_notMem_exponentText _⟩

/-- A number is written on one line. -/
theorem Binary64.newline_notMem_text (x : Binary64) : '\n' ∉ x.text.toList := by
  have hsign : '\n' ∉ (if x.isNegative then "-" else "").toList := by
    split
    · decide
    · decide
  unfold text
  split
  · decide
  · dsimp only
    rw [String.toList_append, List.mem_append, not_or]
    refine ⟨hsign, ?_⟩
    split
    · decide
    · split
      · decide
      · exact newline_notMem_general _

end Number

namespace Listing

open CodeBlock (Op)
open Number (Binary64)

/-! ## Columns -/

/-- Two hexadecimal digits that are written alike have one value. -/
theorem eq_of_hexDigitUpper_eq {m n : Nat} (hm : m < 16) (hn : n < 16)
    (h : Text.hexDigitUpper m = Text.hexDigitUpper n) : m = n := by
  have hvalue := congrArg Text.hexValue? h
  rw [Text.hexValue?_hexDigitUpper m hm, Text.hexValue?_hexDigitUpper n hn] at hvalue
  exact Option.some.inj hvalue

/-- Two digits of a byte say which byte it is. -/
theorem hexByte_append_inj {x y : UInt8} {s t : List Char} :
    (Text.hexByte x).toList ++ s = (Text.hexByte y).toList ++ t ↔ x = y ∧ s = t := by
  have hx := x.toNat_lt
  have hy := y.toNat_lt
  constructor
  · intro h
    simp only [Text.hexByte, String.toList_ofList, List.cons_append, List.nil_append,
      List.cons.injEq] at h
    obtain ⟨hhigh, hlow, hrest⟩ := h
    have hquotient := eq_of_hexDigitUpper_eq (by omega) (by omega) hhigh
    have hremainder := eq_of_hexDigitUpper_eq (by omega) (by omega) hlow
    refine ⟨UInt8.toNat_inj.mp ?_, hrest⟩
    omega
  · rintro ⟨rfl, rfl⟩
    rfl

/-- The column of a line says which line it is, to one who knows the line before. -/
theorem readLine?_lineColumn (before : Option Nat) (line : Nat) (s : List Char) :
    Dump.readLine? before
      ((lineColumn (if before = some line then none else some line)).toList ++ ' ' :: s) =
        some (line, s) := by
  by_cases hsame : before = some line
  · rw [if_pos hsame, hsame]
    exact Dump.readLine?_sameLine line s
  · rw [if_neg hsame]
    exact Dump.readLine?_number before lineWidth line s

/-! ## Rows -/

/-- One row says which byte it is of and which line that is on, if the offset and the
line before are known. -/
theorem byteRow_append_inj {before : Option Nat} {offset : Nat} {p q : UInt8 × Nat}
    {s t : List Char} :
    (byteRow offset p.1 (if before = some p.2 then none else some p.2)).toList ++ s =
        (byteRow offset q.1 (if before = some q.2 then none else some q.2)).toList ++ t ↔
      p = q ∧ s = t := by
  constructor
  · intro h
    rw [toList_byteRow, toList_byteRow, List.append_assoc, List.append_assoc,
      List.append_cancel_left_eq, List.cons_append, List.cons_append, List.cons.injEq] at h
    -- Behind the offset, which is the same, the line is read with the one before in hand.
    have hline := congrArg (Dump.readLine? before) h.2
    simp only [List.append_assoc, List.cons_append, readLine?_lineColumn] at hline
    obtain ⟨hline, hbyte⟩ := Prod.mk.inj (Option.some.inj hline)
    simp only [List.cons.injEq, true_and, hexByte_append_inj, List.nil_append] at hbyte
    exact ⟨Prod.ext hbyte.1 hline, hbyte.2⟩
  · rintro ⟨rfl, rfl⟩
    rfl

/-- The text does not begin with a digit. -/
def NoDigitFirst (s : List Char) : Prop := ∀ c ∈ s.head?, c.isDigit = false

/-- A text that does not begin with a digit begins with no row: that of a byte begins
with its offset. -/
theorem rowsFrom_cons_append_ne {before : Option Nat} {offset : Nat} {p : UInt8 × Nat}
    {ps : List (UInt8 × Nat)} {s t : List Char} (ht : NoDigitFirst t) :
    (String.join (rowsFrom before offset (p :: ps))).toList ++ s ≠ t := by
  rintro rfl
  obtain ⟨c, digits, hdigits⟩ : ∃ c digits,
      (Text.zeroPadded indexWidth offset).toList = c :: digits := by
    obtain ⟨c, digits, hdigits, -⟩ := exists_cons_toString offset
    apply List.exists_cons_of_ne_nil
    rw [Text.toList_zeroPadded, hdigits]
    exact List.append_ne_nil_of_right_ne_nil _ (List.cons_ne_nil _ _)
  have hdigit : c.isDigit = true :=
    isDigit_of_mem_zeroPadded indexWidth offset c (hdigits ▸ List.mem_cons_self)
  rw [rowsFrom, String.join_cons, String.toList_append, toList_byteRow, hdigits] at ht
  rw [ht c rfl] at hdigit
  exact Bool.false_ne_true hdigit

/-- **Rows say what they are rows of**, and where they end, if what comes behind them
does not begin with a digit. -/
theorem rowsFrom_append_inj {t u : List Char} (ht : NoDigitFirst t) (hu : NoDigitFirst u)
    {before : Option Nat} {offset : Nat} {ps qs : List (UInt8 × Nat)} :
    (String.join (rowsFrom before offset ps)).toList ++ t =
        (String.join (rowsFrom before offset qs)).toList ++ u ↔ ps = qs ∧ t = u := by
  induction ps generalizing before offset qs with
  | nil =>
    cases qs with
    | nil => exact (and_iff_right rfl).symm
    | cons q qs => exact iff_of_false (rowsFrom_cons_append_ne ht).symm nofun
  | cons p ps ih =>
    cases qs with
    | nil => exact iff_of_false (rowsFrom_cons_append_ne hu) nofun
    | cons q qs =>
      simp only [rowsFrom, String.join_cons, String.toList_append, List.append_assoc]
      rw [byteRow_append_inj]
      constructor
      · rintro ⟨rfl, h⟩
        obtain ⟨rfl, rfl⟩ := ih.mp h
        exact ⟨rfl, rfl⟩
      · rintro ⟨h, rfl⟩
        obtain ⟨rfl, rfl⟩ := List.cons.inj h
        exact ⟨rfl, rfl⟩

/-! ## Constants -/

theorem toList_constantRow (index : Nat) (x : Binary64) :
    (constantRow index x).toList = '[' :: ((Text.zeroPadded indexWidth index).toList ++
      ']' :: ' ' :: (x.text.toList ++ ['\n'])) := by
  simp [constantRow]

/-- The row of a constant says how the constant shows, and where the row ends. -/
theorem constantRow_append_inj {index : Nat} {x y : Binary64} {s t : List Char} :
    (constantRow index x).toList ++ s = (constantRow index y).toList ++ t ↔
      x.text = y.text ∧ s = t := by
  have hline (z : Binary64) : ∀ c ∈ z.text.toList, (c != '\n') = true := by
    intro c hc
    rw [bne_iff_ne]
    rintro rfl
    exact z.newline_notMem_text hc
  constructor
  · intro h
    simp only [toList_constantRow, List.cons_append, List.append_assoc, List.cons.injEq, true_and,
      List.append_cancel_left_eq, List.nil_append] at h
    obtain ⟨hx, hs⟩ := span_of_stop (u := s) (hline x) (rfl : ('\n' != '\n') = false)
    obtain ⟨hy, ht⟩ := span_of_stop (u := t) (hline y) (rfl : ('\n' != '\n') = false)
    rw [h] at hx hs
    exact ⟨String.toList_inj.mp (hx.symm.trans hy), (List.cons.inj (hs.symm.trans ht)).2⟩
  · rintro ⟨hxy, rfl⟩
    rw [toList_constantRow, toList_constantRow, hxy]

/-- The rows of constants from an index on. -/
def constantRowsFrom (index : Nat) : List Binary64 → List String
  | [] => []
  | x :: xs => constantRow index x :: constantRowsFrom (index + 1) xs

/-- The rows of constants are numbered in the order of the pool. -/
theorem map_zipIdx_eq_constantRowsFrom (index : Nat) (xs : List Binary64) :
    (xs.zipIdx index).map (fun p => constantRow p.2 p.1) = constantRowsFrom index xs := by
  induction xs generalizing index with
  | nil => rfl
  | cons x xs ih => rw [List.zipIdx_cons, List.map_cons, ih, constantRowsFrom]

theorem toList_constantRows_cons (x : Binary64) (xs : List Binary64) :
    (constantRows (x :: xs)).toList =
      ";; constants\n".toList ++ (String.join (constantRowsFrom 0 (x :: xs))).toList := by
  rw [← map_zipIdx_eq_constantRowsFrom, constantRows, List.isEmpty_cons, if_neg Bool.false_ne_true,
    String.toList_append]

/-- A pool that is not empty has rows. -/
theorem toList_join_constantRowsFrom_ne_nil (index : Nat) (x : Binary64) (xs : List Binary64) :
    (String.join (constantRowsFrom index (x :: xs))).toList ≠ [] := by
  rw [constantRowsFrom, String.join_cons, String.toList_append, toList_constantRow]
  exact List.cons_ne_nil _ _

/-- Rows of constants say how the constants show. -/
theorem constantRowsFrom_inj {index : Nat} {xs ys : List Binary64} :
    (String.join (constantRowsFrom index xs)).toList =
        (String.join (constantRowsFrom index ys)).toList ↔
      xs.map Binary64.text = ys.map Binary64.text := by
  induction xs generalizing index ys with
  | nil =>
    cases ys with
    | nil => exact iff_of_true rfl rfl
    | cons y ys => exact iff_of_false (toList_join_constantRowsFrom_ne_nil _ _ _).symm nofun
  | cons x xs ih =>
    cases ys with
    | nil => exact iff_of_false (toList_join_constantRowsFrom_ne_nil _ _ _) nofun
    | cons y ys =>
      simp only [constantRowsFrom, String.join_cons, String.toList_append]
      rw [constantRow_append_inj, ih, List.map_cons, List.map_cons, List.cons.injEq]

/-- The lines of the constants say how many there are and how they show. -/
theorem constantRows_inj {xs ys : List Binary64} :
    (constantRows xs).toList = (constantRows ys).toList ↔
      xs.map Binary64.text = ys.map Binary64.text := by
  have hshown (z : Binary64) (zs : List Binary64) : (constantRows (z :: zs)).toList ≠ [] := by
    rw [toList_constantRows_cons]
    exact List.append_ne_nil_of_left_ne_nil (by decide) _
  cases xs with
  | nil =>
    cases ys with
    | nil => exact iff_of_true rfl rfl
    | cons y ys => exact iff_of_false (hshown y ys).symm nofun
  | cons x xs =>
    cases ys with
    | nil => exact iff_of_false (hshown x xs) nofun
    | cons y ys =>
      rw [toList_constantRows_cons, toList_constantRows_cons, List.append_cancel_left_eq,
        constantRowsFrom_inj]

/-- The lines of the constants do not begin with a digit. -/
theorem noDigitFirst_constantRows (xs : List Binary64) :
    NoDigitFirst (constantRows xs).toList := by
  cases xs with
  | nil => exact nofun
  | cons x xs =>
    intro c hc
    rw [toList_constantRows_cons] at hc
    obtain rfl := Option.some.inj hc
    rfl

/-! ## A whole listing -/

/-- **A listing tells what it lists**, whatever was done with the blocks before: under
one name, two blocks have the same listing exactly if they have the same bytes, the
same lines and as many constants, each of which shows as its counterpart does. -/
theorem block_inj (ops ops' : List Op) (name : String) :
    let a := CodeBlock.empty.after ops
    let b := CodeBlock.empty.after ops'
    block a name = block b name ↔
      a.code.toList = b.code.toList ∧ a.lines.toList = b.lines.toList ∧
        a.constants.toList.map Binary64.text = b.constants.toList.map Binary64.text := by
  intro a b
  have ha : a.IsAligned := CodeBlock.isAligned_after ops
  have hb : b.IsAligned := CodeBlock.isAligned_after ops'
  rw [block_eq_rows ha, block_eq_rows hb, ← String.toList_inj, ← and_assoc,
    ← ha.pairs_inj hb,    ← constantRows_inj]
  simp only [String.toList_append, List.append_assoc, List.append_cancel_left_eq]
  exact rowsFrom_append_inj (noDigitFirst_constantRows _) (noDigitFirst_constantRows _)

/-- Numbers that show the same cannot be told apart: `0.3` and the sum of `0.1` and `0.2`. -/
example :
    block (CodeBlock.empty.after [.addConstant ⟨0x3FD3333333333333⟩]) "sum" =
      block (CodeBlock.empty.after [.addConstant ⟨0x3FD3333333333334⟩]) "sum" := by
  decide +kernel

end Listing

end ScriptFront
