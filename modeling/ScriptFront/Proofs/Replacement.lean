/-
What a replacement does to a tree.

Each operation of a world changes its tree or fails and leaves it alone, so a replacement
is followed call by call. What carries it is that the draft has a place of its own: it is
no directory, so all paths keep leading where they led, and it is not the place of the
file to be replaced. If that file has a place, taking it away and moving the draft there
cannot fail (`run_install`). If it has none, every call that names it fails, the last of
them included, and the draft stays behind.

So there are three ways for a replacement to come out, and `Replacement` lists them.
-/
import ScriptFront.Proofs.Drafts
import ScriptFront.Proofs.StatefulRuns
import ScriptFront.World

set_option autoImplicit false

namespace ScriptFront

namespace World

variable {w : World} {change : File.Tree → Except File.Fault File.Tree}

/-- A change that succeeds leaves the changed tree. -/
theorem run_change_of_ok {t : File.Tree} (h : change w.tree = .ok t) :
    (World.change change).run w = (.ok (), { w with tree := t }) := by
  dsimp only [World.change, ExceptT.run, ExceptT.mk]
  rw [h]

/-- A change that is refused leaves the world as it is. -/
theorem run_change_of_error {e : File.Fault} (h : change w.tree = .error e) :
    (World.change change).run w = (.error e, w) := by
  dsimp only [World.change, ExceptT.run, ExceptT.mk]
  rw [h]

end World

namespace File

open File.Tree (DiffersAt SameWays spotOfFile_eq_ok_iff write_eq_ok_iff remove_eq_ok_iff
  rename_eq_ok_iff copy_eq_ok_iff)

/-! ## Putting a draft at its path -/

section Clear

variable {σ : Type} [Store (StateM σ)] {s : σ} {path : String}

/-- There is nothing to take away where nothing stands. -/
theorem run_clear_of_not_isThere
    (h : (Store.isThere path : StateM σ Bool).run s = (false, s)) :
    (clear (m := StateM σ) path).run s = (.ok (), s) :=
  run_bind_lift h

/-- What stands at a path is taken away if it can be, and the failure is let pass if not. -/
theorem run_clear_of_isThere {result : Except Fault Unit} {s' : σ}
    (h : (Store.isThere path : StateM σ Bool).run s = (true, s))
    (hremove : (Store.remove (m := StateM σ) path).run s = (result, s')) :
    (clear (m := StateM σ) path).run s = (.ok (), s') :=
  (run_bind_lift h).trans (run_bind_of_eq hremove)

end Clear

section Install

variable {w : World} {draft path : String} {k l : Location} {c : ByteArray}

/-- Where a path puts a file there is none any more after clearing. -/
theorem run_clear (h : w.tree.spotOfFile path = .ok l) :
    ∃ t, (clear (m := StateM World) path).run w = (.ok (), { w with tree := t }) ∧
      DiffersAt w.tree t l none := by
  obtain ⟨-, -, -, -, hfree⟩ := spotOfFile_eq_ok_iff.mp h
  cases hthere : w.tree.isThere path with
  | false =>
    have hnone : w.tree.find? l = none := by
      rw [Tree.isThere_of_spotOfFile h, Option.isSome_eq_false_iff] at hthere
      exact Option.isNone_iff_eq_none.mp hthere
    exact ⟨w.tree, run_clear_of_not_isThere (congrArg (·, w) hthere), rfl, hnone,
      fun _ _ => rfl⟩
  | true =>
    exact ⟨w.tree.erase l,
      run_clear_of_isThere (congrArg (·, w) hthere)
        (World.run_change_of_ok (Tree.remove_of_isThere h hthere)),
      DiffersAt.erase (Tree.ne_nil_of_hasDirectory hfree) w.tree⟩

/-- Where a path puts no file, clearing changes nothing. -/
theorem run_clear_of_no_spot (h : ∀ l, w.tree.spotOfFile path ≠ .ok l) :
    (clear (m := StateM World) path).run w = (.ok (), w) := by
  cases hthere : w.tree.isThere path with
  | false => exact run_clear_of_not_isThere (congrArg (·, w) hthere)
  | true =>
    cases hremove : w.tree.remove path with
    | ok t =>
      obtain ⟨l, -, hspot, -⟩ := remove_eq_ok_iff.mp hremove
      exact absurd hspot (h l)
    | error cause =>
      exact run_clear_of_isThere (congrArg (·, w) hthere) (World.run_change_of_error hremove)

/-- **A draft is put at its path if the path has a place for a file.** The draft is then
gone. -/
theorem run_install (hdraft : w.tree.spotOfFile draft = .ok k)
    (hcontent : w.tree.find? k = some (.file c)) (h : w.tree.spotOfFile path = .ok l)
    (hother : l ≠ k) :
    ∃ t, (install (m := StateM World) draft path).run w = (.ok (), { w with tree := t }) ∧
      t.work = w.tree.work ∧ t.find? l = some (.file c) ∧ t.find? k = none ∧
      ∀ j, j ≠ l → j ≠ k → t.find? j = w.tree.find? j := by
  obtain ⟨-, -, -, -, hfree⟩ := spotOfFile_eq_ok_iff.mp h
  obtain ⟨-, -, -, -, hfreek⟩ := spotOfFile_eq_ok_iff.mp hdraft
  have hl : l ≠ [] := Tree.ne_nil_of_hasDirectory hfree
  have hk : k ≠ [] := Tree.ne_nil_of_hasDirectory hfreek
  obtain ⟨t, hclear, hdiffers⟩ := run_clear h
  -- Clearing takes away a file at most, so both paths still lead where they led.
  have hways : SameWays w.tree t := hdiffers.sameWays hfree nofun
  have hmoved : t.rename draft path = .ok ((t.erase k).put l (.file c)) := by
    refine rename_eq_ok_iff.mpr ⟨k, c, l, hways.spotOfFile hdraft, ?_, hways.spotOfFile h, rfl⟩
    rw [hdiffers.elsewhere k hother.symm, hcontent]
  refine ⟨(t.erase k).put l (.file c), ?_, hdiffers.work, Tree.find?_put_self _ hl _, ?_, ?_⟩
  · rw [install, run_bind_of_ok hclear]
    exact run_tryCatch_of_ok (World.run_change_of_ok hmoved)
  · rw [Tree.find?_put_of_ne _ hother.symm, Tree.find?_erase_self _ hk]
  · intro j hjl hjk
    rw [Tree.find?_put_of_ne _ hjl, Tree.find?_erase_of_ne _ hjk, hdiffers.elsewhere j hjl]

/-- If the path has no place for a file, a failure is told and nothing is changed. -/
theorem run_install_of_no_spot (draft : String) (h : ∀ l, w.tree.spotOfFile path ≠ .ok l) :
    ∃ cause, (install (m := StateM World) draft path).run w = (.error cause, w) := by
  cases hmove : w.tree.rename draft path with
  | ok t =>
    obtain ⟨-, -, l, -, -, hspot, -⟩ := rename_eq_ok_iff.mp hmove
    exact absurd hspot (h l)
  | error moving =>
    cases hcopy : w.tree.copy draft path with
    | ok t =>
      obtain ⟨-, -, l, -, hspot, -⟩ := copy_eq_ok_iff.mp hcopy
      exact absurd hspot (h l)
    | error cause =>
      refine ⟨cause, ?_⟩
      rw [install, run_bind_of_ok (run_clear_of_no_spot h)]
      refine (run_tryCatch_of_error (World.run_change_of_error hmove)).trans ?_
      exact run_bind_of_error (World.run_change_of_error hcopy)

end Install

/-! ## Writing the draft -/

section ReplaceBy

variable {w : World} {draft path text : String} {k l : Location}

/-- Where the draft cannot be made, nothing is changed. -/
theorem run_replaceBy_of_no_draft (path text : String)
    (h : ∀ k, w.tree.spotOfFile draft ≠ .ok k) :
    ∃ cause, (replaceBy (m := StateM World) draft path text).run w = (.error cause, w) := by
  cases hcreate : w.tree.create draft with
  | ok t =>
    obtain ⟨k, hspot, -⟩ := write_eq_ok_iff.mp hcreate
    exact absurd hspot (h k)
  | error cause =>
    exact ⟨cause, run_bind_of_error (World.run_change_of_error hcreate)⟩

/-- A draft that has a place is written there, and nothing else is. -/
theorem run_replaceBy_of_draft (path text : String) (h : w.tree.spotOfFile draft = .ok k) :
    ∃ t, DiffersAt w.tree t k (some (.file text.toUTF8)) ∧ SameWays w.tree t ∧
      (replaceBy (m := StateM World) draft path text).run w =
        (install (m := StateM World) draft path).run { w with tree := t } := by
  obtain ⟨-, -, -, -, hfree⟩ := spotOfFile_eq_ok_iff.mp h
  have hk : k ≠ [] := Tree.ne_nil_of_hasDirectory hfree
  have hcreate : w.tree.create draft = .ok (w.tree.put k (.file .empty)) :=
    write_eq_ok_iff.mpr ⟨k, h, rfl⟩
  have hempty : DiffersAt w.tree (w.tree.put k (.file .empty)) k (some (.file .empty)) :=
    DiffersAt.put hk w.tree _
  have hways : SameWays w.tree (w.tree.put k (.file .empty)) := hempty.sameWays hfree nofun
  have hwrite : (w.tree.put k (.file .empty)).write draft text.toUTF8 =
      .ok ((w.tree.put k (.file .empty)).put k (.file text.toUTF8)) :=
    write_eq_ok_iff.mpr ⟨k, hways.spotOfFile h, rfl⟩
  have hfull := hempty.trans (DiffersAt.put hk _ (.file text.toUTF8))
  refine ⟨_, hfull, hfull.sameWays hfree nofun, ?_⟩
  refine (run_bind_of_ok (World.run_change_of_ok hcreate)).trans ?_
  exact run_bind_of_ok (World.run_change_of_ok hwrite)

end ReplaceBy

/-! ## The ways to come out -/

/-- What a replacement of the file at a path has come to: its result, and the tree after
it. -/
inductive Replacement (path text : String) (t t' : Tree) : Except ReplaceFault Unit → Prop where
  -- The text is where the path puts a file, and nothing else is changed.
  | whole (l : Location) (hspot : t.spotOfFile path = .ok l)
      (hdiffers : DiffersAt t t' l (some (.file text.toUTF8))) :
      Replacement path text t t' (.ok ())
  -- Nothing is changed.
  | nothing (fault : ReplaceFault) (hsame : t' = t) : Replacement path text t t' (.error fault)
  -- A new draft is left behind, and nothing else is changed.
  | left (fault : ReplaceFault) (target : Target) (n : Nat) (directory : Location)
      (htarget : Target.ofPath? path = some target)
      (hspot : t.spotOfFile (target.draft n) = .ok (directory ++ [target.draftName n]))
      (hnew : t.find? (directory ++ [target.draftName n]) = none)
      (hdiffers : DiffersAt t t' (directory ++ [target.draftName n])
        (some (.file text.toUTF8))) :
      Replacement path text t t' (.error fault)

namespace Replacement

variable {path text : String} {t t' : Tree}

/-- The path leads to the text that has replaced what it led to. -/
theorem exists_of_ok (h : Replacement path text t t' (.ok ())) :
    ∃ l, t.spotOfFile path = .ok l ∧ t'.locate path = .ok (l, .file text.toUTF8) ∧
      DiffersAt t t' l (some (.file text.toUTF8)) := by
  obtain ⟨l, hspot, hdiffers⟩ := h
  obtain ⟨-, -, -, -, hfree⟩ := spotOfFile_eq_ok_iff.mp hspot
  refine ⟨l, hspot, ?_, hdiffers⟩
  rw [Tree.locate_of_spotOfFile ((hdiffers.sameWays hfree nofun).spotOfFile hspot), hdiffers.here]

/-- What was there is still there after a replacement that has failed. -/
theorem find?_of_error {fault : ReplaceFault} (h : Replacement path text t t' (.error fault))
    {l : Location} {e : Entry} (hfind : t.find? l = some e) : t'.find? l = some e := by
  cases h with
  | nothing _ hsame => rwa [hsame]
  | left _ target n directory _ _ hnew hdiffers =>
    have hother : l ≠ directory ++ [target.draftName n] := by
      rintro rfl
      rw [hnew] at hfind
      contradiction
    rwa [hdiffers.elsewhere l hother]

end Replacement

/-- A path can be given a text: it has a place for a file, and the first draft that is not
there has one too. -/
def IsReplaceable (t : Tree) (path : String) : Prop :=
  (∃ l, t.spotOfFile path = .ok l) ∧
    ∃ target n k, Target.ofPath? path = some target ∧ target.IsFirstDraft t n ∧
      t.spotOfFile (target.draft n) = .ok k

/-- At a path that can be replaced, a file can be made under the name of the first free draft.
-/
theorem IsReplaceable.exists_spot {t : Tree} {path : String} {target : Target} {n : Nat}
    (h : IsReplaceable t path) (htarget : Target.ofPath? path = some target)
    (hfirst : target.IsFirstDraft t n) : ∃ k, t.spotOfFile (target.draft n) = .ok k := by
  obtain ⟨-, target', n', k, htarget', hfirst', hspot⟩ := h
  exact ⟨k, Target.draft_unique htarget' hfirst' htarget hfirst ▸ hspot⟩

/-- A replacement gives up before it changes anything, or it writes the first draft. -/
theorem run_replace_eq {σ : Type} [Store (StateM σ)] {s : σ} {t : Tree}
    (hthere : ∀ path, (Store.isThere path : StateM σ Bool).run s = (t.isThere path, s))
    (path text : String) :
    (∃ fault, (replace (m := StateM σ) path text).run s = (.error fault, s) ∧
      ∀ target n, Target.ofPath? path = some target → ¬target.IsFirstDraft t n) ∨
    ∃ target n, Target.ofPath? path = some target ∧ target.IsFirstDraft t n ∧
      (replace (m := StateM σ) path text).run s =
        (ExceptT.adapt .failed (replaceBy (m := StateM σ) (target.draft n) path text)).run s := by
  unfold replace
  cases htarget : Target.ofPath? path with
  | none => exact .inl ⟨.noDirectory, rfl, nofun⟩
  | some target =>
    obtain ⟨found, hsearch, hfound⟩ := Target.run_freeDraft? hthere target
    cases found with
    | none =>
      refine .inl ⟨.failed .alreadyThere, run_bind_lift hsearch, ?_⟩
      intro target' n hsome
      obtain rfl := Option.some.inj hsome
      exact hfound n
    | some draft =>
      obtain ⟨n, rfl, hfirst⟩ := hfound
      exact .inr ⟨target, n, rfl, hfirst, run_bind_lift hsearch⟩

/-- **A replacement comes out in one of three ways**, changes nothing of the world but its
tree, and succeeds whenever path and draft have a place. -/
theorem run_replace (path text : String) (w : World) :
    ∃ result t, (replace (m := StateM World) path text).run w = (result, { w with tree := t }) ∧
      Replacement path text w.tree t result ∧ (result = .ok () ↔ IsReplaceable w.tree path) := by
  rcases run_replace_eq (s := w) (t := w.tree) (fun _ => rfl) path text with
    ⟨fault, hrun, hnone⟩ | ⟨target, n, htarget, hfirst, hrun⟩
  · refine ⟨_, w.tree, hrun, .nothing fault rfl, nofun, ?_⟩
    rintro ⟨-, target, n, -, htarget, hfirst, -⟩
    exact absurd hfirst (hnone target n htarget)
  · by_cases hplace : ∃ k, w.tree.spotOfFile (target.draft n) = .ok k
    · obtain ⟨k, hspot⟩ := hplace
      obtain ⟨t, hdiffers, hways, hdrafted⟩ := run_replaceBy_of_draft path text hspot
      have hnew : w.tree.find? k = none := by
        have hfree := hfirst.free
        rw [Tree.isThere_of_spotOfFile hspot, Option.isSome_eq_false_iff] at hfree
        exact Option.isNone_iff_eq_none.mp hfree
      by_cases hpath : ∃ l, w.tree.spotOfFile path = .ok l
      · obtain ⟨l, hl⟩ := hpath
        have hother : l ≠ k := Target.ne_of_spotOfFile_draft htarget hspot hl
        obtain ⟨t', hinstall, hwork, hhere, hgone, helsewhere⟩ :=
          run_install (w := { w with tree := t }) (hways.spotOfFile hspot) hdiffers.here
            (hways.spotOfFile hl) hother
        refine ⟨.ok (), t', ?_, .whole l hl ⟨hwork.trans hdiffers.work, hhere, ?_⟩, ?_⟩
        · exact hrun.trans (run_adapt_of_eq _ (hdrafted.trans hinstall))
        · intro j hj
          by_cases hjk : j = k
          · rw [hjk, hgone, hnew]
          · rw [helsewhere j hj hjk, hdiffers.elsewhere j hjk]
        · have hready : IsReplaceable w.tree path := ⟨⟨l, hl⟩, target, n, k, htarget, hfirst, hspot⟩
          exact ⟨fun _ => hready, fun _ => rfl⟩
      · have hnone : ∀ l, t.spotOfFile path ≠ .ok l := by
          intro l hl
          exact hpath ⟨l, hways.symm.spotOfFile hl⟩
        obtain ⟨cause, hinstall⟩ :=
          run_install_of_no_spot (w := { w with tree := t }) (target.draft n) hnone
        obtain ⟨directory, rfl⟩ := Target.exists_eq_of_spotOfFile_draft htarget hspot
        refine ⟨.error (.failed cause), t, ?_,
          .left _ target n directory htarget hspot hnew hdiffers, nofun, fun h => absurd h.1 hpath⟩
        exact hrun.trans (run_adapt_of_eq _ (hdrafted.trans hinstall))
    · obtain ⟨cause, hdrafted⟩ :=
        run_replaceBy_of_no_draft path text fun k hk => hplace ⟨k, hk⟩
      refine ⟨.error (.failed cause), w.tree, ?_, .nothing _ rfl, nofun, ?_⟩
      · exact hrun.trans (run_adapt_of_eq _ hdrafted)
      · intro hready
        exact absurd (hready.exists_spot htarget hfirst) hplace

end File

end ScriptFront
