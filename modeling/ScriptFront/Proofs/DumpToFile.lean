/-
A dump in a file.

What a command writes to a file is what it would print, at the place the path leads to and
nowhere else. Where that fails, nothing that was there is changed, and where the reading has
failed, nothing at all. All of it is `dump_frame`, which takes the ways that a replacement
can come out (`File.Replacement`) through the rest of the command.
-/
import ScriptFront.Proofs.CommandRuns

set_option autoImplicit false

namespace ScriptFront.Command

/-! ## The two ways to write a dump -/

section Tokens

variable {input : Input} {w : World}

/-- A command whose source cannot be read leaves the tree as it is. -/
theorem run_of_unread {c : Command} {failure : Failure}
    (h : World.outcome c.input.read w = .error failure) :
    ((run (m := StateM World) c).run w).1 = .error failure ∧
      ((run (m := StateM World) c).run w).2.tree = w.tree := by
  obtain ⟨result, w', hread, htree, -, -⟩ := run_read c.input w
  obtain rfl : result = .error failure := (congrArg Prod.fst hread).symm.trans h
  rw [run_of_error hread]
  exact ⟨rfl, htree⟩

variable {source : String} (h : World.outcome input.read w = .ok source) (format : Format)
  (d : Dialect)
include h

/-- Without a file for it, a dump is printed. -/
theorem run_tokens_standard :
    ((run (m := StateM World) (.tokens input .standard format d)).run w).1 = .ok .success ∧
      ((run (m := StateM World) (.tokens input .standard format d)).run w).2.printed =
        w.printed ++ format.dump (Token.ofSource d source) := by
  obtain ⟨result, w', hread, -, hprinted, -⟩ := run_read input w
  obtain rfl : result = .ok source := (congrArg Prod.fst hread).symm.trans h
  have hrun := (run_of_ok (c := .tokens input .standard format d) hread).trans
    (run_bind_of_ok (run_write_standard _ _))
  rw [hrun, ← hprinted]
  exact ⟨rfl, rfl⟩

/-- With a file for it, the dump is what the file is replaced by. -/
theorem run_tokens_file (path : String) :
    ∃ written, File.Replacement path (format.dump (Token.ofSource d source)) w.tree
        ((run (m := StateM World) (.tokens input (.file path) format d)).run w).2.tree written ∧
      (written = .ok () ↔ File.IsReplaceable w.tree path) ∧
      ((run (m := StateM World) (.tokens input (.file path) format d)).run w).1 =
        (written.mapError (.output path)).map (fun _ => .success) ∧
      ((run (m := StateM World) (.tokens input (.file path) format d)).run w).2.printed =
        w.printed := by
  obtain ⟨result, w', hread, htree, hprinted, -⟩ := run_read input w
  obtain rfl : result = .ok source := (congrArg Prod.fst hread).symm.trans h
  have hended := run_of_ok (c := .tokens input (.file path) format d) hread
  obtain ⟨written, t, hreplacement, hready, hwrite⟩ := run_write_file
    (format.dump (Token.ofSource d source)) path
    (w'.saying (((Token.ofSource d source).flatMap Log.ofToken).map .record))
  rw [World.tree_saying, htree] at hreplacement hready
  cases written with
  | ok =>
    rw [hended.trans (run_bind_of_ok hwrite), ← hprinted]
    exact ⟨_, hreplacement, hready, rfl, rfl⟩
  | error fault =>
    rw [hended.trans (run_bind_of_error hwrite), ← hprinted]
    exact ⟨_, hreplacement, hready, rfl, rfl⟩

end Tokens

/-! ## The frame -/

/-- **A dump in a file is the dump that would be printed, and nothing else is touched.** If
writing it fails, all that was there is still there, and a new draft beside the path is the
only thing that can have been added. If the source cannot be read, nothing is added either.

It does not matter which drafts are there already, so long as one is not, nor whether the
path leads to a file, nor whether that is the source. -/
theorem dump_frame (input : Input) (path : String) (format : Format) (d : Dialect) (w : World) :
    let toFile := (run (m := StateM World) (.tokens input (.file path) format d)).run w
    let toOutput := (run (m := StateM World) (.tokens input .standard format d)).run w
    (∀ status, toFile.1 = .ok status →
      ∃ l dump, toOutput.1 = .ok status ∧ toOutput.2.printed = w.printed ++ dump ∧
        toFile.2.printed = w.printed ∧ w.tree.spotOfFile path = .ok l ∧
        toFile.2.tree.locate path = .ok (l, .file dump.toUTF8) ∧
        File.Tree.DiffersAt w.tree toFile.2.tree l (some (.file dump.toUTF8))) ∧
    (∀ failure, toFile.1 = .error failure →
      (∀ l e, w.tree.find? l = some e → toFile.2.tree.find? l = some e) ∧
      (toFile.2.tree = w.tree ∨
        ∃ target n directory content, File.Target.ofPath? path = some target ∧
          w.tree.spotOfFile (target.draft n) = .ok (directory ++ [target.draftName n]) ∧
          w.tree.find? (directory ++ [target.draftName n]) = none ∧
          File.Tree.DiffersAt w.tree toFile.2.tree (directory ++ [target.draftName n])
            (some (.file content)))) ∧
    (∀ failure, World.outcome input.read w = .error failure →
      toFile.1 = .error failure ∧ toFile.2.tree = w.tree) ∧
    ((∃ status, toFile.1 = .ok status) ↔
      (∃ source, World.outcome input.read w = .ok source) ∧
        File.IsReplaceable w.tree path) := by
  intro toFile toOutput
  cases hread : World.outcome (input.read (m := StateM World)) w with
  | error failure =>
    obtain ⟨hstatus, htree⟩ :=
      run_of_unread (c := .tokens input (.file path) format d) hread
    rw [show toFile.1 = _ from hstatus, show toFile.2.tree = _ from htree]
    refine ⟨nofun, ?_, ?_, nofun, ?_⟩
    · intro _ _
      exact ⟨fun _ _ h => h, .inl rfl⟩
    · intro failure' h
      obtain rfl := Except.error.inj h
      exact ⟨rfl, rfl⟩
    · rintro ⟨⟨_, h⟩, -⟩
      contradiction
  | ok source =>
    obtain ⟨written, hreplacement, hready, hstatus, hquiet⟩ :=
      run_tokens_file hread format d path
    obtain ⟨hprints, hprinted⟩ := run_tokens_standard hread format d
    rw [show toFile.1 = _ from hstatus]
    cases written with
    | ok =>
      refine ⟨?_, nofun, nofun, fun _ => ⟨⟨source, rfl⟩, hready.mp rfl⟩, fun _ => ⟨_, rfl⟩⟩
      intro status h
      obtain rfl := Except.ok.inj h
      obtain ⟨l, hspot, hlocate, hdiffers⟩ := hreplacement.exists_of_ok
      exact ⟨l, _, hprints, hprinted, hquiet, hspot, hlocate, hdiffers⟩
    | error fault =>
      refine ⟨nofun, ?_, nofun, ?_, ?_⟩
      · intro _ _
        refine ⟨fun l e => hreplacement.find?_of_error, ?_⟩
        cases hreplacement with
        | nothing _ hsame => exact .inl hsame
        | left _ target n directory htarget hdraft hnew hdiffers =>
          exact .inr ⟨target, n, directory, _, htarget, hdraft, hnew, hdiffers⟩
      · rintro ⟨_, h⟩
        contradiction
      · rintro ⟨-, h⟩
        exact absurd (hready.mpr h) nofun

/-- The source is the file that is replaced, and the first draft is there already. -/
theorem dump_frame_mixed :
    let entries := [(["o"], .file "1".toUTF8), (["o.tmp0"], .file "x".toUTF8)]
    let w : World := { tree := { entries, work := [] }, input := .empty }
    let toFile := (run (m := StateM World) (.tokens (.file "o") (.file "o") .text {})).run w
    let toOutput := (run (m := StateM World) (.tokens (.file "o") .standard .text {})).run w
    toFile.2.tree.locate "o" = .ok (["o"], .file toOutput.2.printed.toUTF8) ∧
      toFile.2.tree.find? ["o.tmp0"] = some (.file "x".toUTF8) := by
  intro entries w toFile toOutput
  obtain ⟨hdone, -, -, hends⟩ := dump_frame (.file "o") "o" .text {} w
  have hread : World.outcome ((Input.file "o").read (m := StateM World)) w = .ok "1" :=
    rfl
  have hspot : w.tree.spotOfFile "o" = .ok ["o"] := rfl
  have hfirst : File.Target.IsFirstDraft ⟨".", "o"⟩ w.tree 1 := by
    refine ⟨by decide, rfl, ?_⟩
    intro j hj
    obtain rfl := Nat.lt_one_iff.mp hj
    rfl
  have hready : File.IsReplaceable w.tree "o" :=
    ⟨⟨["o"], hspot⟩, ⟨".", "o"⟩, 1, ["o.tmp1"], rfl, hfirst, rfl⟩
  obtain ⟨status, hstatus⟩ := hends.mpr ⟨⟨_, hread⟩, hready⟩
  obtain ⟨l, dump, -, hprinted, -, hl, hlocate, hdiffers⟩ := hdone status hstatus
  obtain rfl := Except.ok.inj (hspot.symm.trans hl)
  rw [String.empty_append] at hprinted
  rw [hprinted]
  exact ⟨hlocate, hdiffers.elsewhere _ (by decide)⟩

end ScriptFront.Command
