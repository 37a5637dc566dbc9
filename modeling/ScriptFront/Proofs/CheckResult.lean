/-
What a check comes to.

A check reads its source, takes all its tokens and ends with a status that the
errors among them decide. What it tells meanwhile, and to whom, has no part in
that: the outcome is a function of the outcome of reading (`outcome_check`).
With the report of the automaton in place of the tokens, the exit code is that
of a source, whatever its dialect (`check_eq_automaton`).
-/
import ScriptFront.Command.Run
import ScriptFront.Proofs.LexicalErrors
import ScriptFront.World

set_option autoImplicit false

namespace ScriptFront

/-! ## Outcomes -/

/-- What a computation comes to when it starts in a world. -/
def World.outcome {ε α : Type} (x : ExceptT ε (StateM World) α) (w : World) : Except ε α :=
  (x.run w).1

namespace Command

theorem decode_toUTF8 (s : String) : decode s.toUTF8 = .ok s := by
  rw [decode, String.toUTF8_eq_toByteArray, String.fromUTF8?, dif_pos s.isValidUTF8]
  rfl

/-- How a check ends is told by the tokens of what it reads, and it fails only
if nothing is read. -/
theorem outcome_check (input : Input) (d : Dialect) (w : World) :
    World.outcome (Command.check input d).run w =
      (World.outcome input.read w).map fun source => (verdict (Token.ofSource d source)).2 := by
  have hread : ∀ f : Except Failure String → StateM World (Except Failure ExitStatus),
      ((input.read (m := StateM World)).run >>= f) w =
        f (World.outcome input.read w) ((input.read (m := StateM World)).run w).2 := fun _ => rfl
  rw [run, World.outcome, ExceptT.run_bind, hread]
  cases World.outcome input.read w with
  | error e => rfl
  | ok source => rfl

/-! ## The check -/

/-- **A check finds what the automaton finds**: the same errors on the same
lines, in every dialect, and its exit code says whether there are any. -/
theorem check_eq_automaton (d : Dialect) (source : String) :
    Dump.errors (Token.ofSource d source) = report [] source.toList ∧
    ∀ (input : Input) (w : World), World.outcome (input.read (m := StateM World)) w = .ok source →
      (∃ status, World.outcome (Command.check input d).run w = .ok status ∧
        status.code =
          if strays .code [] source.toList ≠ [] ∨ Mode.code.final source.toList = .string
          then 65 else 0) ∧
      ∀ d', World.outcome (Command.check input d').run w =
        World.outcome (Command.check input d).run w := by
  refine ⟨Dump.errors_ofSource d source, ?_⟩
  intro input w hread
  have hend : ∀ d', World.outcome (Command.check input d').run w =
      .ok (if (report [] source.toList).isEmpty then .success else .lexicalErrors) := by
    intro d'
    rw [outcome_check, hread, ← Dump.errors_ofSource d']
    rfl
  -- The outcome does not mention the dialect any more.
  refine ⟨⟨_, hend d, ?_⟩, fun d' => (hend d').trans (hend d).symm⟩
  by_cases hany : report [] source.toList = []
  · rw [hany, if_neg fun hbad => report_ne_nil_iff.mpr hbad hany]
    rfl
  · rw [if_neg (mt List.isEmpty_iff.mp hany), if_pos (report_ne_nil_iff.mp hany)]
    rfl

/-- A source with a stray character, a comment and an open string on the
standard input. -/
theorem check_eq_automaton_mixed :
    let source := "@ // @\n\"@"
    let w : World := { tree := { entries := [], work := [] }, input := source.toUTF8 }
    World.outcome (Input.standard.read (m := StateM World)) w = .ok source ∧
      Dump.errors (Token.ofSource {} source) =
        ["[line 1] Error: Unexpected character.", "[line 2] Error: unterminated string"] ∧
      ∃ status, World.outcome (Command.check .standard {}).run w = .ok status ∧
        status.code = 65 := by
  intro source w
  have hread : World.outcome (Input.standard.read (m := StateM World)) w = .ok source :=
    congrArg (Except.mapError Failure.input) (decode_toUTF8 source)
  obtain ⟨herrors, hrun⟩ := check_eq_automaton {} source
  obtain ⟨⟨status, hstatus, hcode⟩, -⟩ := hrun .standard w hread
  have hopen : Mode.code.final "@ // @\n\"@".toList = .string := by decide
  have hreport : report [] "@ // @\n\"@".toList =
      ["[line 1] Error: Unexpected character.", "[line 2] Error: unterminated string"] := by
    decide
  exact ⟨hread, herrors.trans hreport, status, hstatus, hcode.trans (if_pos (.inr hopen))⟩

end Command

end ScriptFront
