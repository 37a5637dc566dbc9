/-
Reading starts anew at a line feed.

If every string of a text is closed in it, then nothing in the text reaches over
a line feed put behind it: no token goes on, since layout ends a token, and a
comment ends there at the latest. And what comes behind the line feed is read as
if it stood alone, since a reading does not depend on what comes before it. So
the tokens of two texts with a line feed between them are the tokens of the first
one, without its end token, and then those of the second one, moved
(`Token.ofSource_append_newline`).

The induction is on the reading of the first text (`Cuts.append_newline`). It
takes the reading of both texts together apart, one token of the first text at a
time, and hands what is left at its end to `Cuts.moved`.
-/
import ScriptFront.Proofs.OneReading
import ScriptFront.Proofs.Tiling

set_option autoImplicit false

namespace ScriptFront

/-! ## Moved tokens -/

/-- The second token is the first one, `bytes` further on and `lines` further
down. -/
structure Token.Moved (bytes lines : Nat) (t t' : Token) : Prop where
  kind : t'.kind = t.kind
  lexeme : t'.lexeme = t.lexeme
  line : t'.line = t.line + lines
  start : t'.span.start.toNat = t.span.start.toNat + bytes
  stop : t'.span.stop.toNat = t.span.stop.toNat + bytes

/-- A cut that lies behind `ahead` has its token moved by the bytes and the line
feeds of `ahead`, as long as offsets and lines are exact in the whole source. -/
theorem Cut.Moved.token {d : Dialect} {ahead source : List Char} {k k' : Cut}
    (h : Cut.Moved ahead k k') (hk : k.Sound d) (hk' : k'.Sound d)
    (hwhole : k'.stop ++ k'.after = source) (hsize : byteLength source ≤ Offset.last)
    (hlines : 1 + source.count '\n' ≤ Place.lastLine) :
    Token.Moved (byteLength ahead) (ahead.count '\n') k.token k'.token := by
  have hfeeds : 1 + k'.stop.count '\n' ≤ Place.lastLine := by
    rw [← hwhole, List.count_append] at hlines
    omega
  have hbytes : byteLength k'.stop ≤ Offset.last := by
    rw [← hwhole, byteLength_append] at hsize
    omega
  have hstop : k.stop = k.start ++ k.text := rfl
  rw [h.stop, List.count_append, hstop, List.count_append] at hfeeds
  rw [h.stop, byteLength_append, hstop, byteLength_append] at hbytes
  obtain ⟨hfrom, hto⟩ := hk'.exact hwhole hsize
  refine ⟨h.kind, h.lexeme, ?_, ?_, ?_⟩
  · rw [hk.line, hk'.line]
    simp only [h.isUnterminated_iff, h.start, h.stop, hstop]
    split
    · simp only [lineAfter, List.count_append]
      omega
    · simp only [lineAfter, List.count_append]
      omega
  · rw [hfrom, h.start, byteLength_append, hk.span, Span.ofNat, Offset.toNat_ofNat]
    omega
  · rw [hto, h.stop, byteLength_append, hk.span, Span.ofNat, Offset.toNat_ofNat, hstop,
      byteLength_append]
    omega

/-- Two readings whose cuts are moved have their tokens moved. -/
theorem Succession.tokens_moved {d : Dialect} {ahead source before source' : List Char}
    {cuts cuts' : List Cut} (h : Succession d source before cuts)
    (hmoved : List.Forall₂ (Cut.Moved ahead) cuts cuts') (hsound : ∀ k ∈ cuts', k.Sound d)
    (hwhole : ∀ k ∈ cuts', k.stop ++ k.after = source') (hsize : byteLength source' ≤ Offset.last)
    (hlines : 1 + source'.count '\n' ≤ Place.lastLine) :
    List.Forall₂ (Token.Moved (byteLength ahead) (ahead.count '\n'))
      (cuts.map Cut.token) (cuts'.map Cut.token) := by
  rw [List.forall₂_map_left_iff, List.forall₂_map_right_iff, List.forall₂_iff_zip]
  refine ⟨hmoved.length_eq, fun {k k'} hmem => ?_⟩
  obtain ⟨hk, hk'⟩ := List.of_mem_zip hmem
  exact (List.forall₂_zip hmoved hmem).token (h.sound k hk) (hsound k' hk') (hwhole k' hk')
    hsize hlines

/-! ## Two texts and a line feed -/

/-- The reading of two texts with a line feed between them is the reading of the
first one, all but the end of it, and then that of the second one. -/
theorem Cuts.append_newline {d : Dialect} {before s t : List Char} {cuts cuts' later : List Cut}
    (h : Cuts d before s cuts) (hclosed : ∀ k ∈ cuts, ¬ k.token.IsUnterminated)
    (h' : Cuts d before (s ++ '\n' :: t) cuts') (hlater : Cuts d [] t later) :
    ∃ moved, cuts'.map Cut.token = (cuts.map Cut.token).dropLast ++ moved.map Cut.token ∧
      (∀ k ∈ moved, k ∈ cuts') ∧
      List.Forall₂ (Cut.Moved (before ++ s ++ ['\n'])) later moved := by
  induction h generalizing cuts' with
  | @last k hend =>
    refine ⟨cuts', rfl, fun _ hk => hk, ?_⟩
    have hgap : Trivia (k.gap ++ ['\n']) t := by
      refine .append ?_ (.layout (.inr (.inr (.inr rfl))) .nil)
      exact hend.gap.append_newline t
    have hread : Cuts d k.before (k.gap ++ ['\n'] ++ t) cuts' := by
      rw [List.append_assoc]
      exact h'
    refine hlater.moved hread hgap ?_
    rw [List.append_nil, List.append_assoc]
  | @next k ks htoken htail ih =>
    obtain ⟨hopen, hclosed⟩ := List.forall_mem_cons.mp hclosed
    -- The first token of both texts together is that of the first one.
    have hrest : k.gap ++ (k.text ++ k.after) ++ '\n' :: t =
        k.gap ++ (k.text ++ (k.after ++ '\n' :: t)) := by
      simp only [List.append_assoc]
    have hbehind : k.text ++ (k.after ++ '\n' :: t) = k.text ++ k.after ++ '\n' :: t :=
      (List.append_assoc ..).symm
    have hgap : Trivia k.gap (k.text ++ (k.after ++ '\n' :: t)) := by
      rw [hbehind]
      exact htoken.gap.append_newline t
    have hbegins : ¬ BeginsTrivia (k.text ++ (k.after ++ '\n' :: t)) := by
      have hne : k.text ++ k.after ≠ [] :=
        List.append_ne_nil_of_left_ne_nil htoken.longest.reading.ne_nil _
      rw [hbehind]
      exact fun hbegins =>
        htoken.begins (hbegins.of_append_layout hne (.inr (.inr (.inr rfl))))
    obtain ⟨k', ks', rfl, htoken', hstart, htext, hkind, hlexeme, htail'⟩ :=
      h'.cases_token hrest hgap hbegins
        (htoken.longest.append_layout hopen (.inr (.inr (.inr rfl))) t)
    have hstop : k'.stop = k.stop := by
      rw [Cut.stop, hstart, htext]
      rfl
    have hsame : k'.token = k.token :=
      Cut.Moved.token_eq ⟨hstart, hstop, hkind, hlexeme⟩ (.inr htoken) (.inr htoken')
    rw [hstop] at htail'
    obtain ⟨moved, hmap, hmem, hmoved⟩ := ih hclosed htail'
    refine ⟨moved, ?_, fun k hk => List.mem_cons_of_mem _ (hmem k hk), ?_⟩
    · have hne : ks.map Cut.token ≠ [] := mt List.map_eq_nil_iff.mp htail.ne_nil
      rw [List.map_cons, List.map_cons, List.dropLast_cons_of_ne_nil hne, hmap, hsame]
      rfl
    · rw [← Cut.stop_append_after]
      exact hmoved

/-- **A line feed is a point where reading starts anew.** If no string of the
first text is left open, the tokens of two texts with a line feed between them
are those of the first one without its end token, and then those of the second
one, as far on as the first one and the line feed are long, and as many lines
further down as these have line feeds. -/
theorem Token.ofSource_append_newline (d : Dialect) (a b : String)
    (hclosed : ∀ t ∈ Token.ofSource d a, ¬ t.IsUnterminated)
    (hsize : a.utf8ByteSize + 1 + b.utf8ByteSize ≤ Offset.last)
    (hlines : 1 + (a ++ "\n" ++ b).toList.count '\n' < Place.lastLine) :
    ∃ pieces ending later, Token.ofSource d a = pieces ++ [ending] ∧ ending.kind = .eof ∧
      Token.ofSource d (a ++ "\n" ++ b) = pieces ++ later ∧
      List.Forall₂ (Token.Moved (a.utf8ByteSize + 1) (1 + a.toList.count '\n'))
        (Token.ofSource d b) later := by
  obtain ⟨cuts, hcuts, htokens⟩ := Token.exists_cuts d a
  obtain ⟨later, hlater, hlatertokens⟩ := Token.exists_cuts d b
  obtain ⟨whole, hwhole, hwholetokens⟩ := Token.exists_cuts d (a ++ "\n" ++ b)
  have hsource : (a ++ "\n" ++ b).toList = a.toList ++ '\n' :: b.toList := by
    rw [String.toList_append, String.toList_append, List.append_assoc]
    rfl
  have hopen : ∀ k ∈ cuts, ¬ k.token.IsUnterminated := fun k hk =>
    hclosed k.token (htokens ▸ List.mem_map_of_mem hk)
  obtain ⟨moved, hmap, hmem, hmoved⟩ := hcuts.append_newline hopen (hsource ▸ hwhole) hlater
  obtain ⟨pieces, ending, rfl, -, hending, -⟩ := hcuts.exists_concat
  refine ⟨pieces.map Cut.token, ending.token, moved.map Cut.token, ?_,
    congrArg Token.kind hending.token, ?_, ?_⟩
  · rw [← htokens, List.map_append, List.map_singleton]
  · rw [← hwholetokens, hmap, List.map_append, List.map_singleton, List.dropLast_concat]
  · have hbytes : a.utf8ByteSize + 1 = byteLength (a.toList ++ ['\n']) := by
      rw [byteLength_append, utf8ByteSize_eq]
      rfl
    have hfeeds : 1 + a.toList.count '\n' = (a.toList ++ ['\n']).count '\n' := by
      rw [List.count_append, Nat.add_comm]
      rfl
    have hsound := hwhole.succession.sound
    have hsplit := hwhole.succession.whole
    rw [← hlatertokens, hbytes, hfeeds]
    refine hlater.succession.tokens_moved hmoved (fun k hk => hsound k (hmem k hk))
      (fun k hk => hsplit k (hmem k hk)) ?_ (Nat.le_of_lt hlines)
    rw [List.nil_append, ← utf8ByteSize_eq, String.utf8ByteSize_append, String.utf8ByteSize_append]
    exact hsize

/-- A number that ends in a dot and a comment before the line feed, an open string
behind it. -/
theorem Token.ofSource_append_newline_mixed :
    (∀ t ∈ Token.ofSource {} "é\n1. // a", ¬ t.IsUnterminated) ∧
    "é\n1. // a".utf8ByteSize + 1 + "2 \"b".utf8ByteSize ≤ Offset.last ∧
    1 + ("é\n1. // a" ++ "\n" ++ "2 \"b").toList.count '\n' < Place.lastLine ∧
    ∃ pieces ending later, Token.ofSource {} "é\n1. // a" = pieces ++ [ending] ∧
      ending.kind = .eof ∧
      Token.ofSource {} ("é\n1. // a" ++ "\n" ++ "2 \"b") = pieces ++ later ∧
      List.Forall₂ (Token.Moved ("é\n1. // a".utf8ByteSize + 1)
        (1 + "é\n1. // a".toList.count '\n')) (Token.ofSource {} "2 \"b") later := by
  have hclosed : ∀ t ∈ Token.ofSource {} "é\n1. // a", ¬ t.IsUnterminated := by
    decide +kernel
  have hsize : "é\n1. // a".utf8ByteSize + 1 + "2 \"b".utf8ByteSize ≤ Offset.last := by decide
  have hlines : 1 + ("é\n1. // a" ++ "\n" ++ "2 \"b").toList.count '\n' < Place.lastLine := by
    decide
  exact ⟨hclosed, hsize, hlines, Token.ofSource_append_newline {} _ _ hclosed hsize hlines⟩

end ScriptFront
