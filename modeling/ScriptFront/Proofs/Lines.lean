/-
Lines count line feeds.

The line of a cursor is the one after the text it has passed, and the line of a
token is the one it begins on, or, for a string that is not closed, the one it
ends on. Both lie between the line before the token's gap and the line after
its text, and these meet from token to token. So lines never decrease, whatever
lies between the tokens and however they are asked for.
-/
import ScriptFront.Proofs.Calls

set_option autoImplicit false

namespace ScriptFront

/-! ## The line of one token -/

namespace Cut

variable {d : Dialect} {k : Cut}

/-- A token counts on the line it begins on, an open string on the last line. -/
theorem Sound.line (h : k.Sound d) :
    k.token.line = lineAfter (if k.token.IsUnterminated then k.stop else k.start) := by
  rcases h with hend | htoken
  · have hkind : ¬ k.token.IsUnterminated := by
      rw [hend.token]
      exact fun h => nomatch h.1
    rw [if_neg hkind, hend.token]
  · exact htoken.line

/-- The line of a token lies between those of the texts on either side of it. -/
theorem Sound.line_bounds (h : k.Sound d) :
    lineAfter k.before ≤ k.token.line ∧ k.token.line ≤ lineAfter k.stop := by
  have hgap : lineAfter k.before ≤ lineAfter k.start := lineAfter_mono ..
  have htext : lineAfter k.start ≤ lineAfter k.stop := lineAfter_mono ..
  rw [h.line]
  by_cases hkind : k.token.IsUnterminated
  · rw [if_pos hkind]
    exact ⟨hgap.trans htext, le_rfl⟩
  · rw [if_neg hkind]
    exact ⟨hgap, htext⟩

end Cut

/-! ## The lines of a stream -/

/-- The tokens are cut from the source one after another, each counts on its line
as told by the line feeds before it, and the lines never decrease. -/
def CountLines (d : Dialect) (source : List Char) (tokens : List Token) : Prop :=
  ∃ cuts, cuts.map Cut.token = tokens ∧ Succession d source [] cuts ∧
    (∀ k ∈ cuts,
      k.token.line = lineAfter (if k.token.IsUnterminated then k.stop else k.start)) ∧
    (tokens.map Token.line).Pairwise (· ≤ ·)

namespace Succession

variable {d : Dialect} {source before : List Char} {cuts : List Cut}

/-- The lines of the tokens of a source never go down. -/
theorem lines_sorted (h : Succession d source before cuts) :
    (cuts.map fun k => k.token.line).Pairwise (· ≤ ·) := by
  have hchain : cuts.IsChain fun a b => a.token.line ≤ b.token.line := by
    refine h.next.imp_of_mem_imp fun a b ha hb hnext => ?_
    calc a.token.line ≤ lineAfter a.stop := (h.sound a ha).line_bounds.2
      _ = lineAfter b.before := by rw [hnext]
      _ ≤ b.token.line := (h.sound b hb).line_bounds.1
  exact List.isChain_iff_pairwise.mp ((List.isChain_map _).mpr hchain)

theorem countLines (h : Succession d source [] cuts) :
    CountLines d source (cuts.map Cut.token) := by
  refine ⟨cuts, rfl, h, fun k hk => (h.sound k hk).line, ?_⟩
  rw [List.map_map]
  exact h.lines_sorted

end Succession

/-- **Lines count line feeds.** After any calls the cursor is on the line that
comes after what it has passed. The tokens that the calls hand out count on the
lines they begin on, strings that are not closed on the lines they end on, and
these lines never decrease; the same holds of all the tokens of a source. -/
theorem Cursor.lines_count_feeds (d : Dialect) (source : String) :
    (∀ calls, let c := (Cursor.ofSource d source).after calls
      (∃ passed, passed ++ c.rest = source.toList ∧ c.place.offset = byteLength passed ∧
        c.place.line = lineAfter passed) ∧
      CountLines d source.toList ((Cursor.ofSource d source).handedOut calls)) ∧
    CountLines d source.toList (Token.ofSource d source) := by
  constructor
  · intro calls c
    obtain ⟨cuts, passed, hcuts, htokens, hafter⟩ :=
      Cursor.exists_succession (Cursor.passed_ofSource d source) calls
    refine ⟨⟨passed, hafter.whole, ?_, ?_⟩, htokens ▸ hcuts.countLines⟩
    · rw [hafter.place, Place.offset_start_through]
    · rw [hafter.place, Place.line_start_through]
  · obtain ⟨cuts, hcuts, htokens⟩ := Token.exists_cuts d source
    exact htokens ▸ hcuts.succession.countLines

end ScriptFront
