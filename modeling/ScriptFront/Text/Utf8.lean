/-
Reading UTF-8 that may be damaged.

A first byte says how many bytes follow it and in which range each of them may
lie; the ranges leave out long forms, surrogates and numbers past the last
character. Bytes that begin a character but do not complete it are shown as one
replacement character, up to the first byte that does not fit; a byte that
begins no character is shown as one by itself. Each character or replacement
takes at least one byte, so reading stops.
-/

set_option autoImplicit false

namespace ScriptFront.Text.Utf8

/-- What stands for bytes that are no character. -/
def replacement : Char := '\ufffd'

/-- The bytes from one up to another. -/
structure Range where
  first : UInt8
  last : UInt8

/-- Whether a byte lies in a range. -/
def Range.holds (r : Range) (b : UInt8) : Bool := r.first ≤ b && b ≤ r.last

/-- What any byte but the first may be, unless the first restricts the second. -/
def following : Range := ⟨0x80, 0xBF⟩

/-- What a first byte says: its share of the character's number, and the ranges
of the bytes after it. -/
structure Lead where
  bits : Nat
  ranges : List Range

/-- What a byte says as the first of a character, if it can be one. -/
def Lead.of? (b : UInt8) : Option Lead :=
  let n := b.toNat
  if n < 0x80 then some ⟨n, []⟩
  else if n < 0xC2 then none
  else if n < 0xE0 then some ⟨n - 0xC0, [following]⟩
  else if n = 0xE0 then some ⟨n - 0xE0, [⟨0xA0, 0xBF⟩, following]⟩
  else if n = 0xED then some ⟨n - 0xE0, [⟨0x80, 0x9F⟩, following]⟩
  else if n < 0xF0 then some ⟨n - 0xE0, [following, following]⟩
  else if n = 0xF0 then some ⟨n - 0xF0, [⟨0x90, 0xBF⟩, following, following]⟩
  else if n < 0xF4 then some ⟨n - 0xF0, [following, following, following]⟩
  else if n = 0xF4 then some ⟨n - 0xF0, [⟨0x80, 0x8F⟩, following, following]⟩
  else none

/-- The bytes at the head of a text that lie in given ranges, one after another. -/
def fitting : List Range → List UInt8 → List UInt8
  | r :: ranges, b :: s => if r.holds b then b :: fitting ranges s else []
  | _, _ => []

/-- The number that highest bits and following bytes make up. -/
def number (bits : Nat) (bytes : List UInt8) : Nat :=
  bytes.foldl (fun n b => 64 * n + b.toNat % 64) bits

/-- The characters of a text, with replacements for what is none. -/
def decode : List UInt8 → List Char
  | [] => []
  | b :: s =>
    match Lead.of? b with
    | none => replacement :: decode s
    | some lead =>
      let taken := fitting lead.ranges s
      let c :=
        if taken.length = lead.ranges.length then Char.ofNat (number lead.bits taken)
        else replacement
      c :: decode (s.drop taken.length)
termination_by s => s.length

/-- The text of some bytes, with replacements for what is none. -/
def text (bytes : ByteArray) : String := String.ofList (decode bytes.data.toList)

/-- Whole characters of each length; the end of one and the start of another; a
surrogate, of which no two bytes belong together. -/
example :
    (text "aé日😀".toUTF8, text ⟨#[0x9F, 0xC3]⟩, text ⟨#[0xF0, 0x9F, 0x98, 0x78]⟩,
        text ⟨#[0xED, 0xA0, 0x80]⟩)
      = ("aé日😀", "\ufffd\ufffd", "\ufffdx", "\ufffd\ufffd\ufffd") := by
  decide +kernel

end ScriptFront.Text.Utf8
