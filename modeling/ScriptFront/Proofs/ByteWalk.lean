/-
Reading a source byte by byte.

A walk looks at one byte after another, and at most at one more ahead. It does not know
where characters begin, it moves by single bytes, and it takes texts out of the source by
byte positions: such a cut fails unless its positions are in order and each of them lies
between two characters (`Text.cut`). Nor is anything said about how long it takes. Its loops
have no bound (`Outcome.loop`), so each of them comes back with a position or does not come
back at all, and a walk to the next token may do the same.

This file says what the loops do. They look at bytes, and the properties they test hold of
all bytes of a longer character alike, so a loop never stops inside one: it passes the bytes
of those characters that a loop over characters would pass (`takeWhile_octets`).
-/
import Mathlib.Data.PFun
import ScriptFront.Proofs.Calls
import ScriptFront.Proofs.Tiling
import ScriptFront.Proofs.WordTable

set_option autoImplicit false

namespace ScriptFront

open Token (Kind Symbol)

/-! ## Cuts that can fail -/

/-- What can go wrong on a walk. -/
inductive WalkFault where
  -- No text lies between two positions of the source.
  | cut (start stop : Nat)
  -- A character is needed where there is none.
  | noCharacter
deriving DecidableEq, Repr

/-- What a walk comes to: a result or a fault, or nothing if it does not come back. -/
abbrev Outcome (α : Type) := ExceptT WalkFault Part α

namespace Text

/-- Whether a byte position lies between two characters of a source or at one of its ends. -/
def IsBoundary (source : String) (i : Nat) : Prop := String.Pos.Raw.IsValid source ⟨i⟩

instance (source : String) (i : Nat) : Decidable (IsBoundary source i) :=
  decidable_of_iff _ String.Pos.Raw.isValid_eq_true_iff

/-- The text between two byte positions, if they are in order and both are boundaries. -/
def cut (source : String) (start stop : Nat) : Except WalkFault String :=
  if h : start ≤ stop ∧ IsBoundary source start ∧ IsBoundary source stop then
    .ok (source.extract ⟨⟨start⟩, h.2.1⟩ ⟨⟨stop⟩, h.2.2⟩)
  else .error (.cut start stop)

/-- The byte at a position, as the character with its number. -/
def byteAt? (source : String) (i : Nat) : Option Char := source.toUTF8[i]?.map Char.ofUInt8

end Text

open Text (IsBoundary cut byteAt?)

/-! ## Loops without a bound -/

namespace Outcome

variable {α β : Type}

/-- A fault ends a loop as a result does. -/
def settle : Except WalkFault (β ⊕ α) → Except WalkFault β ⊕ α
  | .error e => .inl (.error e)
  | .ok (.inl b) => .inl (.ok b)
  | .ok (.inr a) => .inr a

def settled (round : α → Outcome (β ⊕ α)) : α →. Except WalkFault β ⊕ α :=
  fun a => settle <$> (round a).run

/-- Goes on in rounds, each of which comes to a result or leads to another round. -/
def loop (round : α → Outcome (β ⊕ α)) (a : α) : Outcome β := .mk ((settled round).fix a)

end Outcome

/-! ## Walks -/

/-- How far a walk has come. -/
structure Walk where
  -- The position at which the last token begins.
  start : Nat
  -- The position of the next byte.
  current : Nat
  line : Nat
  -- The line on which the last token begins.
  startLine : Nat
  -- Whether `next?` has handed out the end token.
  ended : Bool
deriving DecidableEq, Repr

namespace Walk

/-- The walk before the first byte. -/
def begin : Walk := { start := 0, current := 0, line := 1, startLine := 1, ended := false }

/-- The line after a line feed. -/
def nextLine (line : Nat) : Nat := min (line + 1) Place.lastLine

/-! ## Loops over bytes -/

section Loops

variable (source : String)

def whileRound (p : Char → Bool) (i : Nat) : Outcome (Nat ⊕ Nat) :=
  match byteAt? source i with
  | some b => if p b then return .inr (i + 1) else return .inl i
  | none => return .inl i

/-- Goes on while the bytes have a property. -/
def whileAt (p : Char → Bool) (i : Nat) : Outcome Nat := Outcome.loop (whileRound source p) i

def blankRound (i : Nat) : Outcome (Nat ⊕ Nat) :=
  match byteAt? source i with
  | some ' ' | some '\t' | some '\r' => return .inr (i + 1)
  | some '/' =>
    if byteAt? source (i + 1) = some '/' then do
      let stop ← whileAt source (· != '\n') i
      return .inr stop
    else return .inl i
  | _ => return .inl i

/-- Passes over blanks and comments, and stops at a line feed. -/
def skipBlanks (i : Nat) : Outcome Nat := Outcome.loop (blankRound source) i

def quoteRound (pos : Nat × Nat) : Outcome (Nat × Nat ⊕ Nat × Nat) :=
  match byteAt? source pos.1 with
  | some b =>
    if b = '"' then return .inl pos
    else return .inr (pos.1 + 1, if b = '\n' then nextLine pos.2 else pos.2)
  | none => return .inl pos

/-- Goes on to the next quote and counts lines on the way. -/
def toQuote (i line : Nat) : Outcome (Nat × Nat) := Outcome.loop (quoteRound source) (i, line)

end Loops

/-! ## Tokens by position -/

section Tokens

variable (d : Dialect) (fallback : Except WalkFault Nat) (source : String)

/-- The token from `start` up to `current`, on the line it begins on. -/
def emit (w : Walk) (kind : Kind) : Outcome (Token × Walk) := do
  let lexeme ← cut source w.start w.current
  return ({ kind, lexeme, line := w.startLine, span := .ofNat w.start w.current }, w)

/-- The error from `start` up to `current`, on the line where it is noticed. -/
def refuse (w : Walk) (e : LexicalError) : Token × Walk :=
  ({ kind := .error, lexeme := e.message, line := w.line, span := .ofNat w.start w.current }, w)

/-- The class of the word between two positions. The letters that its first ones leave to be
compared are cut out by position, once the number of letters agrees. These cuts are of
bytes, and still held to the boundaries. -/
def kindBetween (start stop : Nat) : Except WalkFault Kind := do
  let word ← cut source start stop
  match d.branch? word.toList with
  | none => return .identifier
  | some b =>
    let again ← cut source start stop
    if again.utf8ByteSize = b.start + b.tail.utf8ByteSize then
      let rest ← cut source (start + b.start) stop
      return if rest = b.tail then .keyword b.keyword else .identifier
    else return .identifier

def word (w : Walk) : Outcome (Token × Walk) := do
  let stop ← whileAt source isWordChar w.current
  let kind ← kindBetween d source w.start stop
  emit source { w with current := stop } kind

def numeral (w : Walk) : Outcome (Token × Walk) := do
  let stop ← whileAt source Char.isDigit w.current
  if byteAt? source stop = some '.' then
    let stop ← whileAt source Char.isDigit (stop + 1)
    emit source { w with current := stop } .number
  else emit source { w with current := stop } .number

def quoted (w : Walk) : Outcome (Token × Walk) := do
  let (stop, line) ← toQuote source w.current w.line
  if source.utf8ByteSize ≤ stop then
    return refuse { w with current := stop, line } .unterminatedString
  else emit source { w with current := stop + 1, line } .string

def symbol (a : Symbol) (w : Walk) : Outcome (Token × Walk) :=
  match a.withEqual? with
  | some b =>
    if byteAt? source w.current = some '=' then
      emit source { w with current := w.current + 1 } (.symbol b)
    else emit source w (.symbol a)
  | none => emit source w (.symbol a)

/-- One character that begins no token. Its first byte has been passed; how many there are
is told by the character itself, which is read once more from the start. Should there be no
character, `fallback` takes its place. -/
def stray (w : Walk) : Outcome (Token × Walk) := do
  let rest ← cut source w.start source.utf8ByteSize
  let width ← match rest.toList.head? with
    | some c => pure c.utf8Size
    | none => fallback
  return refuse { w with current := w.start + width } .unexpectedCharacter

/-- The token whose first byte is `b`, which has been passed. -/
def lexeme (b : Char) (w : Walk) : Outcome (Token × Walk) :=
  if isLetter b then word d source w
  else if b.isDigit then numeral source w
  else if b = '"' then quoted source w
  else
    match Symbol.ofChar? b with
    | some a => symbol source a w
    | none => stray fallback source w

/-- A line feed is passed here, and then everything begins anew. -/
def tokenRound (w : Walk) : Outcome (Token × Walk ⊕ Walk) := do
  let i ← skipBlanks source w.current
  let begun := { w with start := i, current := i, startLine := w.line }
  match byteAt? source i with
  | none => return .inl (← emit source begun .eof)
  | some b =>
    let passed := { begun with current := i + 1 }
    if b = '\n' then return .inr { passed with line := nextLine w.line }
    else return .inl (← lexeme d fallback source b passed)

/-- The next token. -/
def nextToken (w : Walk) : Outcome (Token × Walk) := Outcome.loop (tokenRound d fallback source) w

/-- One call in either of the two ways of asking. -/
def call (w : Walk) : Cursor.Call → Outcome (Option Token × Walk)
  | .pull => do
    let (t, w) ← nextToken d fallback source w
    return (some t, w)
  | .next =>
    if w.ended then return (none, w)
    else do
      let (t, w) ← nextToken d fallback source w
      return (some t, { w with ended := t.isEof })

/-- One call after another: their answers, and how far the walk has come then. -/
def run (w : Walk) : List Cursor.Call → Outcome (List (Option Token) × Walk)
  | [] => return ([], w)
  | a :: calls => do
    let (answer, w) ← call d fallback source w a
    let (answers, w) ← run w calls
    return (answer :: answers, w)

end Tokens

end Walk

/-! ## Rounds -/

namespace Outcome

variable {α β : Type}

/-- A loop takes one step and then either ends or goes on from where that has led. -/
theorem fix_eq (f : α →. β ⊕ α) (a : α) :
    f.fix a = f a >>= Sum.elim Part.some fun a => f.fix a := by
  apply Part.ext
  intro b
  rw [PFun.mem_fix_iff, Part.bind_eq_bind, Part.mem_bind_iff]
  constructor
  · rintro (hdone | ⟨a', hagain, hb⟩)
    · exact ⟨.inl b, hdone, Part.mem_some b⟩
    · exact ⟨.inr a', hagain, hb⟩
  · rintro ⟨b' | a', hround, hb⟩
    · obtain rfl := Part.mem_some_iff.mp hb
      exact .inl hround
    · exact .inr ⟨a', hround, hb⟩

/-- **One round of a loop**, and then the others if it has come to no result. -/
theorem loop_eq (round : α → Outcome (β ⊕ α)) (a : α) :
    loop round a = round a >>= Sum.elim pure (loop round) := by
  have hround : ∀ x : Except WalkFault (β ⊕ α),
      Sum.elim Part.some (fun a => (settled round).fix a) (settle x) =
        ExceptT.bindCont (Sum.elim pure (loop round)) x := by
    rintro (e | b | a')
    · rfl
    · rfl
    · rfl
  have hfix : (settled round).fix a =
      (round a).run >>= fun x => Sum.elim Part.some (fun a => (settled round).fix a) (settle x) := by
    rw [fix_eq, settled, bind_map_left]
  rw [loop, hfix, funext hround]
  rfl

theorem bind_ok (a : α) (f : α → Outcome β) :
    ((liftM (Except.ok a : Except WalkFault α) : Outcome α) >>= f) = f a :=
  Part.bind_some _ _

end Outcome

/-! ## The bytes of a text -/

namespace Text

/-- The bytes of a text, each as the character with its number. -/
def octets (s : List Char) : List Char :=
  s.flatMap fun c => (String.utf8EncodeChar c).map Char.ofUInt8

@[simp] theorem octets_nil : octets [] = [] := rfl

@[simp] theorem octets_append (s t : List Char) : octets (s ++ t) = octets s ++ octets t :=
  List.flatMap_append

theorem octets_cons (c : Char) (s : List Char) : octets (c :: s) = octets [c] ++ octets s :=
  octets_append [c] s

/-- A text has as many bytes as its length says. -/
@[simp] theorem length_octets (s : List Char) : (octets s).length = byteLength s := by
  induction s with
  | nil => rfl
  | cons c s ih =>
    rw [octets_cons, List.length_append, ih, byteLength_cons, octets, List.flatMap_singleton,
      List.length_map, String.length_utf8EncodeChar]

/-- The first 128 characters are their own bytes. -/
theorem octets_ascii {c : Char} (hc : c.toNat < 128) (s : List Char) :
    octets (c :: s) = c :: octets s := by
  have hsize : c.utf8Size = 1 := by
    rw [Char.utf8Size_eq_one_iff, UInt32.le_iff_toNat_le]
    exact Nat.le_of_lt_succ hc
  have hchar : Char.ofUInt8 c.val.toUInt8 = c := by
    apply Char.ext
    apply UInt32.toNat_inj.mp
    show c.val.toNat % 256 = c.val.toNat
    exact Nat.mod_eq_of_lt (Nat.lt_trans hc (by decide))
  rw [octets_cons, octets, List.flatMap_singleton, String.utf8EncodeChar_eq_singleton hsize,
    List.map_singleton, hchar]
  rfl

/-- A character of ASCII is one byte more. -/
theorem byteLength_concat {c : Char} (hc : c.toNat < 128) (s : List Char) :
    byteLength (s ++ [c]) = byteLength s + 1 := by
  rw [byteLength_append, ← length_octets [c], octets_ascii hc]
  rfl

/-- No byte of any other character is one of the first 128. -/
theorem le_of_mem_octets {c b : Char} (hc : ¬ c.toNat < 128) (hb : b ∈ octets [c]) :
    128 ≤ b.toNat := by
  rw [octets, List.flatMap_singleton, List.mem_map] at hb
  obtain ⟨x, hx, rfl⟩ := hb
  show 128 ≤ x.toNat
  have hval : c.val.toNat = c.toNat := rfl
  simp only [String.utf8EncodeChar, hval] at hx
  -- The cases are the lengths of the encoding; each byte is a remainder with a mark added.
  split at hx
  · omega
  · split at hx
    · simp only [List.mem_cons, List.not_mem_nil, or_false] at hx
      rcases hx with rfl | rfl <;> simp only [UInt8.toNat_ofNat'] <;> omega
    · split at hx
      · simp only [List.mem_cons, List.not_mem_nil, or_false] at hx
        rcases hx with rfl | rfl | rfl <;> simp only [UInt8.toNat_ofNat'] <;> omega
      · simp only [List.mem_cons, List.not_mem_nil, or_false] at hx
        rcases hx with rfl | rfl | rfl | rfl <;> simp only [UInt8.toNat_ofNat'] <;> omega

/-- The first byte of a character is the character if that is ASCII, and greater than any ASCII
byte otherwise. -/
theorem exists_octets_cons (c : Char) (s : List Char) :
    ∃ b t, octets (c :: s) = b :: t ∧ (c.toNat < 128 → b = c) ∧ (¬ c.toNat < 128 → 128 ≤ b.toNat) := by
  by_cases hc : c.toNat < 128
  · exact ⟨c, octets s, octets_ascii hc s, fun _ => rfl, fun h => absurd hc h⟩
  · have hpos : 0 < (octets [c]).length := by
      rw [length_octets, byteLength_cons]
      exact Nat.add_pos_left (Char.utf8Size_pos c) _
    obtain ⟨b, t, hbt⟩ := List.exists_cons_of_length_pos hpos
    refine ⟨b, t ++ octets s, ?_, fun h => absurd h hc, fun _ => ?_⟩
    · rw [octets_cons, hbt, List.cons_append]
    · exact le_of_mem_octets hc (hbt ▸ List.mem_cons_self)

/-- None of the others is any of the first 128 characters. -/
theorem bne_of_le {a c : Char} (ha : a.toNat < 128) (hc : 128 ≤ c.toNat) : (c != a) = true := by
  rw [bne_iff_ne]
  rintro rfl
  omega

/-- **A loop over bytes stops where a loop over characters stops**, if the property it tests
is the same for all but the first 128 characters. -/
theorem takeWhile_octets {p : Char → Bool} {v : Bool} (hp : ∀ c : Char, 128 ≤ c.toNat → p c = v)
    (s : List Char) : (octets s).takeWhile p = octets (s.takeWhile p) := by
  induction s with
  | nil => rfl
  | cons c s ih =>
    by_cases hc : c.toNat < 128
    · rw [octets_ascii hc, List.takeWhile_cons, List.takeWhile_cons, ih]
      split
      · rw [octets_ascii hc]
      · rfl
    · have hchar : p c = v := hp c (Nat.le_of_not_lt hc)
      cases v with
      | true =>
        have hbytes : ∀ b ∈ octets [c], p b = true := fun b hb => hp b (le_of_mem_octets hc hb)
        rw [octets_cons, List.takeWhile_append_of_pos hbytes, ih, List.takeWhile_cons_of_pos hchar,
          octets_cons c (s.takeWhile p)]
      | false =>
        obtain ⟨b, t, hbt, -, hb⟩ := exists_octets_cons c s
        have hstop : ¬ p b = true := by simp [hp b (hb hc)]
        have hstop' : ¬ p c = true := by simp [hchar]
        rw [hbt, List.takeWhile_cons_of_neg hstop, List.takeWhile_cons_of_neg hstop']
        rfl

/-! ## Positions in a source -/

/-- The byte at a position is the one that the bytes of all characters have there. -/
theorem byteAt?_eq (source : String) (i : Nat) : byteAt? source i = (octets source.toList)[i]? := by
  have hbytes : source.toUTF8.data.toList = source.toList.flatMap String.utf8EncodeChar := by
    rw [String.toUTF8_eq_toByteArray, ← String.ofList_toList (s := source),
      String.toByteArray_ofList, List.utf8Encode, List.data_toByteArray, String.toList_ofList]
  have hindex : source.toUTF8[i]? = source.toUTF8.data.toList[i]? := by
    rw [Array.getElem?_toList]
    rfl
  rw [byteAt?, hindex, hbytes, ← List.getElem?_map, List.map_flatMap]
  rfl

section Positions

variable {source : String} {before rest : List Char}

/-- Behind the bytes of some characters come those of the characters that follow. -/
theorem drop_octets (h : source.toList = before ++ rest) :
    (octets source.toList).drop (byteLength before) = octets rest := by
  rw [h, octets_append, ← length_octets, List.drop_left]

/-- Positions behind some characters are positions in what follows them. -/
theorem byteAt?_add (h : source.toList = before ++ rest) (j : Nat) :
    byteAt? source (byteLength before + j) = (octets rest)[j]? := by
  rw [byteAt?_eq, ← drop_octets h, List.getElem?_drop]

/-- The byte after some text is the first byte of what comes next. -/
theorem byteAt?_head (h : source.toList = before ++ rest) :
    byteAt? source (byteLength before) = (octets rest).head? := by
  have hbyte := byteAt?_add h 0
  rwa [Nat.add_zero, ← List.head?_eq_getElem?] at hbyte

/-- Where an ASCII character begins its byte is found. -/
theorem byteAt?_cons_ascii {c : Char} (h : source.toList = before ++ c :: rest)
    (hc : c.toNat < 128) : byteAt? source (byteLength before) = some c := by
  rw [byteAt?_head h, octets_ascii hc, List.head?_cons]

/-- Behind the last byte there is none. -/
theorem byteAt?_end (h : source.toList = before) : byteAt? source (byteLength before) = none := by
  have hwhole : source.toList = before ++ [] := by rw [h, List.append_nil]
  rw [byteAt?_head hwhole]
  rfl

/-- A text that the source begins with ends at a boundary. -/
theorem isBoundary_byteLength (h : source.toList = before ++ rest) :
    IsBoundary source (byteLength before) := by
  rw [IsBoundary, String.Pos.Raw.isValid_iff_exists_append]
  refine ⟨.ofList before, .ofList rest, ?_, ?_⟩
  · rw [← String.ofList_append, ← h, String.ofList_toList]
  · rw [← utf8ByteSize_ofList]
    rfl

/-- **A text that lies in the source can be cut out.** -/
theorem cut_eq {text after : List Char} (h : source.toList = before ++ text ++ after) :
    cut source (byteLength before) (byteLength (before ++ text)) = .ok (.ofList text) := by
  have hbehind : source.toList = before ++ (text ++ after) := by rw [h, List.append_assoc]
  have hstart : IsBoundary source (byteLength before) := isBoundary_byteLength hbehind
  have hstop : IsBoundary source (byteLength (before ++ text)) := isBoundary_byteLength h
  have horder : byteLength before ≤ byteLength (before ++ text) := by
    rw [byteLength_append]
    exact Nat.le_add_right _ _
  rw [cut, dif_pos ⟨horder, hstart, hstop⟩]
  apply congrArg Except.ok
  rw [← String.toByteArray_inj, String.toByteArray_extract]
  exact extract_toByteArray h

/-- One of the first 128 characters comes next if its byte does. -/
theorem byteAt?_eq_some_iff {c : Char} (h : source.toList = before ++ rest) (hc : c.toNat < 128) :
    byteAt? source (byteLength before) = some c ↔ rest.head? = some c := by
  rw [byteAt?_head h]
  cases rest with
  | nil => simp
  | cons a s =>
    obtain ⟨b, t, hbt, hascii, hlong⟩ := exists_octets_cons a s
    rw [hbt, List.head?_cons, List.head?_cons]
    by_cases ha : a.toNat < 128
    · rw [hascii ha]
    · have hb := hlong ha
      have hne : b ≠ c := by
        rintro rfl
        omega
      have hne' : a ≠ c := by
        rintro rfl
        exact ha hc
      simp [hne, hne']

end Positions

end Text

/-! ## What the loops do -/

namespace Walk

open Text

variable {source : String}

/-- Where the bytes go on with `b`, and then with `t`. -/
theorem byteAt?_of_drop {i : Nat} {b : Char} {t : List Char}
    (h : (octets source.toList).drop i = b :: t) :
    byteAt? source i = some b ∧ (octets source.toList).drop (i + 1) = t := by
  constructor
  · rw [byteAt?_eq, ← List.head?_drop, h, List.head?_cons]
  · rw [← List.tail_drop, h, List.tail_cons]

/-- Where no bytes are left none is found. -/
theorem byteAt?_of_drop_nil {i : Nat} (h : (octets source.toList).drop i = []) :
    byteAt? source i = none := by
  rw [byteAt?_eq, List.getElem?_eq_none_iff]
  exact List.drop_eq_nil_iff.mp h

/-- The loop over bytes comes back. The induction is on the bytes that are left. -/
theorem whileAt_eq (p : Char → Bool) (i : Nat) :
    whileAt source p i = pure (i + (((octets source.toList).drop i).takeWhile p).length) := by
  induction hrest : (octets source.toList).drop i generalizing i with
  | nil =>
    rw [whileAt, Outcome.loop_eq, whileRound, byteAt?_of_drop_nil hrest]
    exact pure_bind _ _
  | cons b t ih =>
    obtain ⟨hbyte, hnext⟩ := byteAt?_of_drop hrest
    rw [whileAt, Outcome.loop_eq, whileRound, hbyte]
    dsimp only
    by_cases hb : p b = true
    · have hlength : i + 1 + (t.takeWhile p).length = i + ((b :: t).takeWhile p).length := by
        rw [List.takeWhile_cons_of_pos hb, List.length_cons]
        omega
      rw [if_pos hb, pure_bind, ← hlength]
      exact ih (i + 1) hnext
    · rw [if_neg hb, pure_bind, List.takeWhile_cons_of_neg hb]
      rfl

/-- How a byte or a character changes the line. -/
def countLine (line : Nat) (c : Char) : Nat := if c = '\n' then nextLine line else line

/-- The loop of strings stops at the next quote and has counted the line feeds before it. -/
theorem toQuote_eq (i line : Nat) :
    toQuote source i line =
      pure (i + (((octets source.toList).drop i).takeWhile (· != '"')).length,
        (((octets source.toList).drop i).takeWhile (· != '"')).foldl countLine line) := by
  induction hrest : (octets source.toList).drop i generalizing i line with
  | nil =>
    rw [toQuote, Outcome.loop_eq, quoteRound, byteAt?_of_drop_nil hrest]
    exact pure_bind _ _
  | cons b t ih =>
    obtain ⟨hbyte, hnext⟩ := byteAt?_of_drop hrest
    rw [toQuote, Outcome.loop_eq, quoteRound, hbyte]
    dsimp only
    by_cases hb : b = '"'
    · rw [if_pos hb, pure_bind, List.takeWhile_cons_of_neg (by simp [hb])]
      rfl
    · have hmore : (b :: t).takeWhile (· != '"') = b :: t.takeWhile (· != '"') :=
        List.takeWhile_cons_of_pos (by simp [hb])
      have hlength : i + 1 + (t.takeWhile (· != '"')).length =
          i + ((b :: t).takeWhile (· != '"')).length := by
        rw [hmore, List.length_cons]
        omega
      rw [if_neg hb, pure_bind, ← hlength, hmore, List.foldl_cons]
      exact ih (i + 1) _ hnext

/-- Bytes count the same lines as characters: no byte of a longer character is a line feed. -/
theorem foldl_countLine_octets (s : List Char) (line : Nat) :
    (octets s).foldl countLine line = s.foldl countLine line := by
  have hkeep : ∀ (t : List Char) (line : Nat), (∀ b ∈ t, 128 ≤ b.toNat) →
      t.foldl countLine line = line := by
    intro t
    induction t with
    | nil => exact fun _ _ => rfl
    | cons b t ih =>
      intro line ht
      obtain ⟨hb, ht⟩ := List.forall_mem_cons.mp ht
      have hfeed : b ≠ '\n' := by
        rintro rfl
        exact absurd hb (by decide)
      rw [List.foldl_cons, countLine, if_neg hfeed, ih line ht]
  induction s generalizing line with
  | nil => rfl
  | cons c s ih =>
    by_cases hc : c.toNat < 128
    · rw [octets_ascii hc, List.foldl_cons, List.foldl_cons, ih]
    · have hfeed : c ≠ '\n' := by
        rintro rfl
        exact hc (by decide)
      rw [octets_cons, List.foldl_append, hkeep _ _ fun b hb => le_of_mem_octets hc hb, ih,
        List.foldl_cons, countLine, if_neg hfeed]

/-- Counting on from a line comes to the line behind the text. -/
theorem foldl_countLine (before s : List Char) :
    s.foldl countLine (lineAfter before) = lineAfter (before ++ s) := by
  induction s generalizing before with
  | nil => rw [List.foldl_nil, List.append_nil]
  | cons c s ih =>
    have hstep : countLine (lineAfter before) c = lineAfter (before ++ [c]) := by
      by_cases hc : c = '\n'
      · subst hc
        simp only [countLine, nextLine, lineAfter, List.count_append, List.count_singleton_self,
          if_true]
        omega
      · rw [countLine, if_neg hc, lineAfter_concat before hc]
    rw [List.foldl_cons, hstep, ih, List.append_assoc]
    rfl

section Loops

variable {before rest : List Char}

/-- **The loop passes the characters that have the property.** -/
theorem whileAt_passes {p : Char → Bool} {v : Bool} (hp : ∀ c : Char, 128 ≤ c.toNat → p c = v)
    (h : source.toList = before ++ rest) :
    whileAt source p (byteLength before) = pure (byteLength (before ++ rest.takeWhile p)) := by
  rw [whileAt_eq, drop_octets h, takeWhile_octets hp, length_octets, byteLength_append]

/-- **The loop of strings ends on a boundary**: behind all that comes before the next quote,
with the line that belongs there. -/
theorem toQuote_passes (h : source.toList = before ++ rest) :
    toQuote source (byteLength before) (lineAfter before) =
      pure (byteLength (before ++ rest.takeWhile (· != '"')),
        lineAfter (before ++ rest.takeWhile (· != '"'))) := by
  rw [toQuote_eq, drop_octets h, takeWhile_octets fun c hc => bne_of_le (by decide) hc, length_octets, foldl_countLine_octets,
    foldl_countLine, byteLength_append]

/-- A blank is passed over by one byte. -/
theorem skipBlanks_blank {c : Char} (hc : c = ' ' ∨ c = '\t' ∨ c = '\r')
    (h : source.toList = before ++ c :: rest) :
    skipBlanks source (byteLength before) = skipBlanks source (byteLength (before ++ [c])) := by
  rcases hc with rfl | rfl | rfl
  all_goals
    rw [skipBlanks, Outcome.loop_eq, blankRound, byteAt?_cons_ascii h (by decide),
      byteLength_concat (by decide)]
    exact pure_bind _ _

/-- A comment is passed over to the end of its line. -/
theorem skipBlanks_comment {body : List Char} (hbody : '\n' ∉ body) (hrest : AtLineEnd rest)
    (h : source.toList = before ++ '/' :: '/' :: (body ++ rest)) :
    skipBlanks source (byteLength before) =
      skipBlanks source (byteLength (before ++ '/' :: '/' :: body)) := by
  have hnext : byteAt? source (byteLength before + 1) = some '/' := by
    rw [byteAt?_add h, octets_ascii (by decide), octets_ascii (by decide)]
    rfl
  have hline : ('/' :: '/' :: (body ++ rest)).takeWhile (· != '\n') = '/' :: '/' :: body := by
    have hslashes : ∀ c ∈ '/' :: '/' :: body, (c != '\n') = true := by
      intro c hc
      rw [bne_iff_ne]
      rintro rfl
      simp [hbody] at hc
    have hstop : rest.takeWhile (· != '\n') = [] := by
      rcases hrest with rfl | ⟨t, rfl⟩ <;> rfl
    rw [← List.cons_append, ← List.cons_append, List.takeWhile_append_of_pos hslashes, hstop,
      List.append_nil]
  have hround : blankRound source (byteLength before) =
      pure (.inr (byteLength (before ++ '/' :: '/' :: body))) := by
    rw [blankRound, byteAt?_cons_ascii h (by decide)]
    show (if _ then _ else _) = _
    rw [if_pos hnext, whileAt_passes (fun c hc => bne_of_le (by decide) hc) h, hline, pure_bind]
  rw [skipBlanks, Outcome.loop_eq, hround, pure_bind]
  rfl

/-- Nothing is passed over where neither a blank nor a comment comes next. -/
theorem skipBlanks_stop (h : source.toList = before ++ rest)
    (hblank : ∀ c, c = ' ' ∨ c = '\t' ∨ c = '\r' → rest.head? ≠ some c)
    (hcomment : ∀ t, rest ≠ '/' :: '/' :: t) :
    skipBlanks source (byteLength before) = pure (byteLength before) := by
  have hround : blankRound source (byteLength before) = pure (.inl (byteLength before)) := by
    rw [blankRound]
    split
    · next hb => exact absurd ((byteAt?_eq_some_iff h (by decide)).mp hb) (hblank ' ' (by simp))
    · next hb => exact absurd ((byteAt?_eq_some_iff h (by decide)).mp hb) (hblank '\t' (by simp))
    · next hb => exact absurd ((byteAt?_eq_some_iff h (by decide)).mp hb) (hblank '\r' (by simp))
    · next hb =>
      obtain ⟨t, rfl⟩ := List.head?_eq_some_iff.mp ((byteAt?_eq_some_iff h (by decide)).mp hb)
      have hbehind : source.toList = before ++ ['/'] ++ t := by
        rw [h, List.append_assoc]
        rfl
      have hnext : ¬ byteAt? source (byteLength before + 1) = some '/' := by
        rw [← byteLength_concat (c := '/') (by decide), byteAt?_eq_some_iff hbehind (by decide)]
        intro ht
        obtain ⟨u, rfl⟩ := List.head?_eq_some_iff.mp ht
        exact hcomment u rfl
      rw [if_neg hnext]
    · rfl
  rw [skipBlanks, Outcome.loop_eq, hround, pure_bind]
  rfl

/-- Where no trivia begin the loop of blanks stays. -/
theorem skipBlanks_of_not_beginsTrivia (h : source.toList = before ++ rest)
    (hbegins : ¬ BeginsTrivia rest) :
    skipBlanks source (byteLength before) = pure (byteLength before) := by
  refine skipBlanks_stop h ?_ ?_
  · intro c hc hhead
    obtain ⟨t, rfl⟩ := List.head?_eq_some_iff.mp hhead
    refine hbegins (.inl ⟨c, t, rfl, ?_⟩)
    rcases hc with hc | hc | hc
    · exact .inl hc
    · exact .inr (.inl hc)
    · exact .inr (.inr (.inl hc))
  · rintro t rfl
    exact hbegins (.inr ⟨t, rfl⟩)

end Loops

end Walk

end ScriptFront
