/-
The tokens of a source lie in it like tiles.

Both results of this file are about the cuts of a whole reading (`Cuts`). The
first is that every token is the longest reading at its place
(`Token.ofSource_longest`). The second is about bytes: in a source whose offsets
can all be named, the spans and the gaps between them make up the source, byte
for byte (`Token.ofSource_tile`), and in a longer one the offsets, which then
meet at the last one, still never decrease.

The statements quantify over one list of cuts, so that the places of the tokens
are fixed even where their offsets are not: the cuts follow one another through
the whole source with only trivia between them (`Tiling`).
-/
import ScriptFront.Proofs.Cuts

set_option autoImplicit false

namespace ScriptFront

open Token (Longest)

/-! ## Texts and their bytes -/

theorem utf8ByteSize_ofList (s : List Char) : (String.ofList s).utf8ByteSize = byteLength s := by
  induction s with
  | nil => rfl
  | cons c s ih =>
    have hcons : String.ofList (c :: s) = String.singleton c ++ String.ofList s := by
      rw [String.singleton_eq_ofList, ← String.ofList_append]
      rfl
    rw [hcons, String.utf8ByteSize_append, String.utf8ByteSize_singleton, ih, byteLength_cons]

theorem utf8ByteSize_eq (source : String) : source.utf8ByteSize = byteLength source.toList := by
  rw [← utf8ByteSize_ofList, String.ofList_toList]

/-- A text that is not empty has bytes. -/
theorem byteLength_pos {s : List Char} (h : s ≠ []) : 0 < byteLength s := by
  obtain ⟨c, t, rfl⟩ := List.exists_cons_of_ne_nil h
  rw [byteLength_cons]
  exact Nat.add_pos_left (Char.utf8Size_pos c) _

/-- Of three pieces in a row, the bytes of the one in the middle. -/
theorem extract_toByteArray {source : String} {a b c : List Char}
    (hsource : source.toList = a ++ b ++ c) :
    source.toByteArray.extract (byteLength a) (byteLength (a ++ b)) =
      (String.ofList b).toByteArray := by
  have hbytes : source.toByteArray = (String.ofList a).toByteArray ++
      ((String.ofList b).toByteArray ++ (String.ofList c).toByteArray) := by
    rw [← String.ofList_toList (s := source), hsource, String.ofList_append,
      String.ofList_append, String.toByteArray_append, String.toByteArray_append,
      ByteArray.append_assoc]
  have hsize : ∀ s : List Char, (String.ofList s).toByteArray.size = byteLength s := fun s => by
    rw [String.size_toByteArray, utf8ByteSize_ofList]
  -- The first piece is dropped and the second is kept.
  have hdrop := ByteArray.extract_append_size_add' (i := 0) (j := byteLength b)
    (b := (String.ofList b).toByteArray ++ (String.ofList c).toByteArray) (hsize a).symm
  rw [Nat.add_zero] at hdrop
  rw [byteLength_append, hbytes, hdrop, ByteArray.extract_append_eq_left (hsize b).symm]

/-- A span from the end of one piece of a source to the end of the next cuts
that piece out. -/
theorem Span.slice?_of_append {source : String} {a b c : List Char} {s : Span}
    (hsource : a ++ b ++ c = source.toList) (hstart : s.start.toNat = byteLength a)
    (hstop : s.stop.toNat = byteLength (a ++ b)) :
    s.slice? source = some (String.ofList b).toUTF8 := by
  have hfits : byteLength a ≤ byteLength (a ++ b) ∧
      byteLength (a ++ b) ≤ source.toByteArray.size := by
    rw [String.size_toByteArray, utf8ByteSize_eq, ← hsource]
    simp only [byteLength_append]
    omega
  rw [slice?, String.toUTF8_eq_toByteArray, String.toUTF8_eq_toByteArray, hstart, hstop,
    if_pos hfits, extract_toByteArray hsource.symm]

/-! ## The cuts of a reading -/

/-- The cuts lie one after another in the source, from its start to its end,
with only trivia between their texts. There is a last one, for the end of the source. -/
structure Tiling (source : List Char) (cuts : List Cut) : Prop where
  -- Each divides the source.
  whole : ∀ k ∈ cuts, k.stop ++ k.after = source
  -- Before the first one nothing has been read.
  first : ∀ k ∈ cuts.head?, k.before = []
  -- Each goes on where the one before it stops.
  next : cuts.IsChain fun a b => b.before = a.stop
  -- After the last one nothing is left.
  last : ∀ k ∈ cuts.getLast?, k.after = []
  gap : ∀ k ∈ cuts, Trivia k.gap (k.text ++ k.after)
  -- The last one, and no other, stands for the end and has no text.
  closed : ∃ pieces final, cuts = pieces ++ [final] ∧ final.token.kind = .eof ∧ final.text = [] ∧
    ∀ k ∈ pieces, k.token.kind ≠ .eof ∧ k.text ≠ []

namespace Cuts

variable {d : Dialect} {before rest : List Char} {cuts : List Cut}

/-- A division is pieces with a token each and, after them, the end. -/
theorem exists_concat (h : Cuts d before rest cuts) :
    ∃ pieces last, cuts = pieces ++ [last] ∧ (∀ k ∈ pieces, k.IsToken d) ∧ last.IsEnd ∧
      last.start = before ++ rest := by
  induction h with
  | @last k hend => exact ⟨[], k, rfl, List.forall_mem_nil _, hend, rfl⟩
  | @next k ks htoken _ ih =>
    obtain ⟨pieces, last, rfl, hpieces, hlast, hstart⟩ := ih
    refine ⟨k :: pieces, last, rfl, List.forall_mem_cons.mpr ⟨htoken, hpieces⟩, hlast, ?_⟩
    rw [hstart, Cut.stop_append_after]

/-- The gaps and pieces of a division, put together, are the text it divides. -/
theorem flatMap_eq (h : Cuts d before rest cuts) :
    (cuts.flatMap fun k => k.gap ++ k.text) = rest := by
  induction h with
  | last hend => rw [List.flatMap_singleton, hend.text, List.append_nil]
  | next _ _ ih => rw [List.flatMap_cons, ih, List.append_assoc]

/-- The cuts of a whole source tile it. -/
theorem tiling {source : List Char} (h : Cuts d [] source cuts) : Tiling source cuts where
  whole := h.succession.whole
  first := h.succession.first
  next := h.succession.next
  last k hk := by
    obtain ⟨pieces, last, rfl, -, hlast, -⟩ := h.exists_concat
    rw [List.getLast?_concat] at hk
    obtain rfl := Option.some.inj hk
    exact hlast.after
  gap k hk := (h.succession.sound k hk).gap
  closed := by
    obtain ⟨pieces, last, hcuts, hpieces, hlast, -⟩ := h.exists_concat
    refine ⟨pieces, last, hcuts, congrArg Token.kind hlast.token, hlast.text, ?_⟩
    intro k hk
    exact ⟨(hpieces k hk).kind_ne_eof, (hpieces k hk).longest.reading.ne_nil⟩

end Cuts

/-- The end token comes last, and nowhere else. -/
theorem Token.ofSource_eq_concat (d : Dialect) (source : String) :
    ∃ others ending, Token.ofSource d source = others ++ [ending] ∧ ending.kind = .eof ∧
      ∀ t ∈ others, t.kind ≠ .eof := by
  obtain ⟨cuts, hcuts, htokens⟩ := Token.exists_cuts d source
  obtain ⟨pieces, last, rfl, hpieces, hlast, -⟩ := hcuts.exists_concat
  refine ⟨pieces.map Cut.token, last.token, ?_, congrArg Token.kind hlast.token, ?_⟩
  · rw [← htokens, List.map_append, List.map_singleton]
  · intro t ht
    obtain ⟨k, hk, rfl⟩ := List.mem_map.mp ht
    exact (hpieces k hk).kind_ne_eof

/-! ## Longest readings -/

/-- **Every token of a source is the longest reading at its place.** The span
covers the text that is read, the class and the shown text are those of the
reading, and no token begins with layout or with the two slashes of a comment. -/
theorem Token.ofSource_longest (d : Dialect) (source : String) :
    ∃ cuts, cuts.map Cut.token = Token.ofSource d source ∧ Tiling source.toList cuts ∧
      ∀ k ∈ cuts, k.token.kind ≠ .eof →
        k.token.span = Span.ofNat (byteLength k.start) (byteLength k.stop) ∧
        Longest d k.token.kind k.token.lexeme k.text k.after ∧
        ¬ BeginsTrivia (k.text ++ k.after) := by
  obtain ⟨cuts, hcuts, htokens⟩ := Token.exists_cuts d source
  refine ⟨cuts, htokens, hcuts.tiling, ?_⟩
  intro k hk hkind
  rcases hcuts.succession.sound k hk with hend | htoken
  · exact absurd (congrArg Token.kind hend.token) hkind
  · exact ⟨htoken.span, htoken.longest, htoken.begins⟩

/-! ## Spans and gaps -/

def Token.offsets (t : Token) : List Nat := [t.span.start.toNat, t.span.stop.toNat]

/-- The spans of the tokens, and the gaps between them, make up the source. -/
structure ByteTiling (source : String) (cuts : List Cut) : Prop
    extends Tiling source.toList cuts where
  -- The gaps and the texts in their order are the source.
  joined : (cuts.flatMap fun k => k.gap ++ k.text) = source.toList
  -- The last token, and no other, is the end token. It has no text and lies
  -- behind the last byte; all others cover at least one byte.
  ending : ∃ pieces last, cuts = pieces ++ [last] ∧
    last.token.kind = .eof ∧ last.token.lexeme = "" ∧
    last.token.span.start.toNat = source.utf8ByteSize ∧
    last.token.span.stop.toNat = source.utf8ByteSize ∧
    ∀ k ∈ pieces, k.token.kind ≠ .eof ∧ k.token.span.start.toNat < k.token.span.stop.toNat
  -- The bytes before the first span are the first gap.
  leading : ∀ k ∈ cuts.head?,
    (Span.mk .zero k.token.span.start).slice? source = some (String.ofList k.gap).toUTF8
  -- A span does not begin before the last one ends, and the bytes between them
  -- are the gap.
  between : cuts.IsChain fun a b =>
    a.token.span.stop.toNat ≤ b.token.span.start.toNat ∧
    (Span.mk a.token.span.stop b.token.span.start).slice? source
      = some (String.ofList b.gap).toUTF8
  -- The bytes of a span are the text that the token was made of.
  covered : ∀ k ∈ cuts, k.token.span.slice? source = some (String.ofList k.text).toUTF8
  -- The bytes of a span are the text that the token shows, unless it shows a
  -- message.
  shown : ∀ k ∈ cuts, k.token.kind ≠ .error →
    k.token.span.slice? source = some k.token.lexeme.toUTF8

namespace Cut

variable {d : Dialect} {k : Cut}

/-- The lexeme of a token without an error is the piece it was cut from. -/
theorem Sound.lexeme_eq (h : k.Sound d) (hkind : k.token.kind ≠ .error) :
    k.token.lexeme = String.ofList k.text := by
  rcases h with hend | htoken
  · rw [hend.token, hend.text, String.ofList_nil]
  · exact htoken.longest.reading.lexeme_eq hkind

/-- The offsets of a token are those of its text, as far as they have a name. -/
theorem Sound.offsets_eq (h : k.Sound d) :
    k.token.offsets =
      [min (byteLength k.start) Offset.last, min (byteLength k.stop) Offset.last] := by
  rw [Token.offsets, h.span, Span.ofNat, Offset.toNat_ofNat, Offset.toNat_ofNat]

/-- In a source whose offsets have names, the offsets of a token are exact. -/
theorem Sound.exact {source : List Char} (h : k.Sound d) (hwhole : k.stop ++ k.after = source)
    (hsize : byteLength source ≤ Offset.last) :
    k.token.span.start.toNat = byteLength k.start ∧
      k.token.span.stop.toNat = byteLength k.stop := by
  have hstop : byteLength k.stop ≤ byteLength source := by
    rw [← hwhole, byteLength_append]
    exact Nat.le_add_right ..
  have hstart : byteLength k.start ≤ byteLength k.stop := by
    rw [stop, byteLength_append]
    exact Nat.le_add_right ..
  rw [h.span, Span.ofNat, Offset.toNat_ofNat, Offset.toNat_ofNat, Nat.min_eq_left, Nat.min_eq_left]
  · exact ⟨rfl, rfl⟩
  · exact hstop.trans hsize
  · exact (hstart.trans hstop).trans hsize

end Cut

namespace Cuts

variable {d : Dialect} {before rest : List Char} {cuts : List Cut}

/-- Offsets never decrease along a reading, and none lies before its start. -/
theorem offsets_sorted (h : Cuts d before rest cuts) :
    (cuts.flatMap fun k => k.token.offsets).Pairwise (· ≤ ·) ∧
      ∀ n ∈ cuts.flatMap fun k => k.token.offsets, min (byteLength before) Offset.last ≤ n := by
  induction h with
  | @last k hend =>
    rw [List.flatMap_singleton, Cut.Sound.offsets_eq (d := d) (.inl hend), Cut.stop, Cut.start,
      hend.text, List.append_nil, byteLength_append]
    refine ⟨List.pairwise_pair.mpr le_rfl, ?_⟩
    intro n hn
    simp only [List.mem_cons, List.not_mem_nil, or_false, or_self] at hn
    omega
  | @next k ks htoken _ ih =>
    have hstart : byteLength k.before ≤ byteLength k.start := by
      rw [Cut.start, byteLength_append]
      exact Nat.le_add_right ..
    have hstop : byteLength k.start ≤ byteLength k.stop := by
      rw [Cut.stop, byteLength_append]
      exact Nat.le_add_right ..
    -- All later offsets are at least where this token stops.
    obtain ⟨hsorted, hafter⟩ := ih
    rw [List.flatMap_cons, Cut.Sound.offsets_eq (.inr htoken)]
    constructor
    · rw [List.cons_append, List.cons_append, List.nil_append, List.pairwise_cons,
        List.pairwise_cons]
      refine ⟨?_, hafter, hsorted⟩
      intro n hn
      rcases List.mem_cons.mp hn with rfl | hn
      · omega
      · have := hafter n hn
        omega
    · intro n hn
      simp only [List.cons_append, List.nil_append, List.mem_cons] at hn
      rcases hn with rfl | rfl | hn
      · omega
      · omega
      · have := hafter n hn
        omega

variable {source : String}

/-- In a source whose size fits an offset, every span counts the bytes before its piece and
through it. -/
theorem exact (h : Cuts d [] source.toList cuts) (hsize : source.utf8ByteSize ≤ Offset.last) :
    ∀ k ∈ cuts, k.token.span.start.toNat = byteLength k.start ∧
      k.token.span.stop.toNat = byteLength k.stop := by
  intro k hk
  exact (h.succession.sound k hk).exact (h.succession.whole k hk) (utf8ByteSize_eq source ▸ hsize)

/-- The end token lies behind the last byte, and every other token covers some. -/
theorem ending (h : Cuts d [] source.toList cuts) (hsize : source.utf8ByteSize ≤ Offset.last) :
    ∃ pieces last, cuts = pieces ++ [last] ∧
      last.token.kind = .eof ∧ last.token.lexeme = "" ∧
      last.token.span.start.toNat = source.utf8ByteSize ∧
      last.token.span.stop.toNat = source.utf8ByteSize ∧
      ∀ k ∈ pieces, k.token.kind ≠ .eof ∧
        k.token.span.start.toNat < k.token.span.stop.toNat := by
  have hexact := h.exact hsize
  obtain ⟨pieces, last, rfl, hpieces, hlast, hstart⟩ := h.exists_concat
  obtain ⟨hfrom, hto⟩ := hexact last (List.mem_append_right _ List.mem_cons_self)
  have hstop : last.stop = last.start := by rw [Cut.stop, hlast.text, List.append_nil]
  refine ⟨pieces, last, rfl, congrArg Token.kind hlast.token, congrArg Token.lexeme hlast.token,
    ?_, ?_, ?_⟩
  · rw [hfrom, hstart, utf8ByteSize_eq, List.nil_append]
  · rw [hto, hstop, hstart, utf8ByteSize_eq, List.nil_append]
  · intro k hk
    obtain ⟨hfrom, hto⟩ := hexact k (List.mem_append_left _ hk)
    refine ⟨(hpieces k hk).kind_ne_eof, ?_⟩
    rw [hfrom, hto, Cut.stop, byteLength_append]
    exact Nat.lt_add_of_pos_right (byteLength_pos (hpieces k hk).longest.reading.ne_nil)

/-- The bytes from where a token's gap begins to where the token begins are
the gap. -/
theorem slice?_gap (h : Cuts d [] source.toList cuts) (hsize : source.utf8ByteSize ≤ Offset.last)
    {k : Cut} (hk : k ∈ cuts) {o : Offset} (ho : o.toNat = byteLength k.before) :
    (Span.mk o k.token.span.start).slice? source = some (String.ofList k.gap).toUTF8 := by
  have hwhole : k.before ++ k.gap ++ (k.text ++ k.after) = source.toList := by
    rw [← h.tiling.whole k hk, Cut.stop_append_after, List.append_assoc]
  exact Span.slice?_of_append hwhole ho (h.exact hsize k hk).1

/-- In a source whose size fits an offset, the spans tile its bytes. -/
theorem byteTiling (h : Cuts d [] source.toList cuts)
    (hsize : source.utf8ByteSize ≤ Offset.last) : ByteTiling source cuts where
  toTiling := h.tiling
  joined := h.flatMap_eq
  ending := h.ending hsize
  leading k hk := by
    have hbefore : k.before = [] := h.tiling.first k hk
    exact h.slice?_gap hsize (List.mem_of_mem_head? hk) (by rw [hbefore]; rfl)
  between := by
    refine h.tiling.next.imp_of_mem_imp fun a b ha hb hnext => ?_
    obtain ⟨-, hstop⟩ := h.exact hsize a ha
    obtain ⟨hstart, -⟩ := h.exact hsize b hb
    refine ⟨?_, h.slice?_gap hsize hb (hnext ▸ hstop)⟩
    rw [hstop, hstart, Cut.start, hnext, byteLength_append]
    exact Nat.le_add_right ..
  covered k hk := by
    obtain ⟨hstart, hstop⟩ := h.exact hsize k hk
    exact Span.slice?_of_append (h.tiling.whole k hk) hstart hstop
  shown k hk hkind := by
    obtain ⟨hstart, hstop⟩ := h.exact hsize k hk
    rw [(h.succession.sound k hk).lexeme_eq hkind]
    exact Span.slice?_of_append (h.tiling.whole k hk) hstart hstop

end Cuts

/-- **The tokens of a source tile it and lose nothing but trivia**, as long as
all its offsets have names; in every source the offsets of the tokens never
decrease. -/
theorem Token.ofSource_tile (d : Dialect) (source : String) :
    (source.utf8ByteSize ≤ Offset.last →
      ∃ cuts, cuts.map Cut.token = Token.ofSource d source ∧ ByteTiling source cuts) ∧
    ((Token.ofSource d source).flatMap Token.offsets).Pairwise (· ≤ ·) := by
  obtain ⟨cuts, hcuts, htokens⟩ := Token.exists_cuts d source
  refine ⟨fun hsize => ⟨cuts, htokens, hcuts.byteTiling hsize⟩, ?_⟩
  rw [← htokens, List.flatMap_map]
  exact hcuts.offsets_sorted.1

/-- A source with a comment, an error and a character of several bytes. -/
theorem Token.ofSource_tile_mixed :
    "é // a\n1.".utf8ByteSize ≤ Offset.last ∧
      ∃ cuts, cuts.map Cut.token = Token.ofSource {} "é // a\n1." ∧
        ByteTiling "é // a\n1." cuts := by
  have hsize : "é // a\n1.".utf8ByteSize ≤ Offset.last := by decide
  exact ⟨hsize, (Token.ofSource_tile {} "é // a\n1.").1 hsize⟩

end ScriptFront
