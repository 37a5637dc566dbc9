/-
What a replacement can be seen to do, and when it does it in one step.

A replacement is a row of calls, each of which can be carried out, refused or broken off.
A scene runs it under a pattern that says which, and keeps every tree there has been: what
lies between two calls can be seen from outside, and is what is left if nothing follows.

The path is touched by three calls only: the one that takes away what stands there, the one
that moves the draft there, and the one that copies it there if it cannot be moved. The
second alone puts a text in the place of another at once. So what a path leads to is old or
new at every moment exactly if nothing was taken away and no copy was broken off in between
(`replace_atomic_iff`). A file that was there is taken away whenever it can be, so without any
fault there is a moment at which the path leads to nothing (`replace_not_atomic`).
-/
import ScriptFront.Proofs.Replacement

set_option autoImplicit false

namespace ScriptFront.File

open File.Tree (DiffersAt SameWays spotOfFile_eq_ok_iff write_eq_ok_iff remove_eq_ok_iff
  rename_eq_ok_iff copy_eq_ok_iff)

/-! ## What a path leads to -/

namespace Tree

/-- What a path leads to, if anything. -/
def shown (t : Tree) (path : String) : Option Entry := (t.locate path).toOption.map Prod.snd

variable {t t' : Tree} {path : String} {l : Location}

/-- A path with a name at its end leads to what lies under the name. -/
theorem shown_of_spot {directory : Location} {name : String}
    (hspot : t.spot path = .ok (.name directory name false))
    (hchild : child directory name = .ok l) : t.shown path = t.find? l := by
  rw [shown, locate_of_spot hspot hchild]
  cases t.find? l <;> rfl

/-- A path with a spot for a file leads to what lies at the spot. -/
theorem shown_of_spotOfFile (h : t.spotOfFile path = .ok l) : t.shown path = t.find? l := by
  obtain ⟨directory, name, hspot, hchild, -⟩ := spotOfFile_eq_ok_iff.mp h
  exact shown_of_spot hspot hchild

/-- Something is there exactly if the path leads to something. -/
theorem isThere_eq_isSome_shown (t : Tree) (path : String) :
    t.isThere path = (t.shown path).isSome := by
  unfold isThere shown
  cases t.locate path <;> rfl

/-- A path that ends in no name leads to a directory. -/
theorem shown_of_not_isName {start directory : Location} {before : List String} {last : String}
    (hbegin : t.begin path = .ok (start, before ++ [last])) (hlast : ¬IsName last)
    (hwalk : t.walk start before = .ok directory) : t.shown path = some .directory := by
  have hlocate : ∃ l, t.locate path = .ok (l, .directory) := by
    unfold locate
    rw [hbegin]
    dsimp only [bind, Except.bind]
    rw [List.reverse_append, List.reverse_singleton, List.singleton_append]
    dsimp only
    rw [List.reverse_reverse, hwalk]
    dsimp only
    split
    · exact ⟨_, rfl⟩
    · exact ⟨_, rfl⟩
    · exact ⟨_, rfl⟩
    · next hempty hdot hup => exact absurd ⟨hempty, hdot, hup⟩ hlast
  obtain ⟨l, hlocate⟩ := hlocate
  rw [shown, hlocate]
  rfl

/-- What a path leads to is found at its end, in the directory that the rest leads to. -/
theorem exists_begin_of_shown {e : Entry} (h : t.shown path = some e) :
    ∃ start before last directory, t.begin path = .ok (start, before ++ [last]) ∧
      t.walk start before = .ok directory ∧
      (IsName last → ∃ l, child directory last = .ok l) := by
  cases hlocate : t.locate path with
  | error cause =>
    rw [shown, hlocate] at h
    contradiction
  | ok found =>
    unfold locate at hlocate
    obtain ⟨⟨start, pieces⟩, hbegin, hrest⟩ := bind_eq_ok_iff.mp hlocate
    dsimp only at hrest
    split at hrest
    · contradiction
    · next last before hpieces =>
      obtain ⟨directory, hwalk, hlast⟩ := bind_eq_ok_iff.mp hrest
      have hsplit : pieces = before.reverse ++ [last] := by
        rw [← List.reverse_cons, ← hpieces, List.reverse_reverse]
      refine ⟨start, before.reverse, last, directory, hsplit ▸ hbegin, hwalk, ?_⟩
      rintro ⟨hempty, hdot, hup⟩
      split at hlast
      · contradiction
      · contradiction
      · contradiction
      · obtain ⟨l, hchild, -⟩ := bind_eq_ok_iff.mp hlast
        exact ⟨l, hchild⟩

/-- A path that leads nowhere and has no place for a file goes on leading nowhere where the
ways are the same. -/
theorem shown_eq_none_of_no_spot (hways : SameWays t t')
    (hfile : t.shown path ≠ some .directory) (hnone : ∀ l, t.spotOfFile path ≠ .ok l) :
    t'.shown path = none := by
  cases hshown : t'.shown path with
  | none => rfl
  | some e =>
    obtain ⟨start, before, last, directory, hbegin, hwalk, hchild⟩ := exists_begin_of_shown hshown
    have hbegin' : t.begin path = .ok (start, before ++ [last]) :=
      (hways.symm.begin path).trans hbegin
    have hwalk' : t.walk start before = .ok directory := hways.symm.walk hwalk
    by_cases hname : IsName last
    · obtain ⟨l, hl⟩ := hchild hname
      have hspot : t.spot path = .ok (.name directory last false) :=
        spot_eq_open_iff.mpr ⟨start, before, hbegin', hname, hwalk'⟩
      cases hfree : t.hasDirectory l with
      | false => exact absurd (spotOfFile_eq_ok_iff.mpr ⟨_, _, hspot, hl, hfree⟩) (hnone l)
      | true =>
        rw [shown_of_spot hspot hl, hasDirectory_eq_true_iff.mp hfree] at hfile
        contradiction
    · exact absurd (shown_of_not_isName hbegin' hname hwalk') hfile

/-- Where one file that is not at the path is changed, the path leads to what it led to. -/
theorem shown_of_differsAt {k : Location} {e : Option Entry} (hdiffers : DiffersAt t t' k e)
    (hfree : t.hasDirectory k = false) (he : e ≠ some .directory)
    (hfile : t.shown path ≠ some .directory) (hother : ∀ l, t.spotOfFile path = .ok l → l ≠ k) :
    t'.shown path = t.shown path := by
  have hways : SameWays t t' := hdiffers.sameWays hfree he
  by_cases hpath : ∃ l, t.spotOfFile path = .ok l
  · obtain ⟨l, hl⟩ := hpath
    rw [shown_of_spotOfFile (hways.spotOfFile hl), shown_of_spotOfFile hl,
      hdiffers.elsewhere l (hother l hl)]
  · have hnone : ∀ l, t.spotOfFile path ≠ .ok l := fun l hl => hpath ⟨l, hl⟩
    rw [shown_eq_none_of_no_spot hways hfile hnone,
      shown_eq_none_of_no_spot (SameWays.refl t) hfile hnone]

end Tree

/-! ## Scenes -/

/-- A call that changes files. -/
inductive Call where
  | create (path : String)
  | write (path : String)
  | remove (path : String)
  | rename (source path : String)
  | copy (source path : String)
deriving DecidableEq, Repr

/-- What becomes of a call that the tree allows. -/
inductive Verdict where
  | carriedOut
  -- Nothing is changed.
  | refused (cause : Fault)
  -- A call that passes on bytes stops after some of them; any other changes nothing.
  | brokenOff (bytes : Nat) (cause : Fault)
deriving DecidableEq, Repr

/-- A tree, what becomes of the calls on it, and the trees there have been. -/
structure Scene where
  tree : Tree
  pattern : Call → Verdict
  -- The trees before, the latest first.
  earlier : List Tree := []

/-- The tree in which some bytes of the file at one path have come to another. -/
def Tree.copyPart (bytes : Nat) (t : Tree) (source path : String) : Except Fault Tree := do
  match ← t.locate source with
  | (_, .directory) => .error .isDirectory
  | (_, .file content) => t.write path (content.extract 0 bytes)

namespace Scene

/-- All trees there have been. -/
def moments (s : Scene) : List Tree := s.tree :: s.earlier

/-- The scene that begins with a tree. -/
def start (t : Tree) (pattern : Call → Verdict) : Scene := { tree := t, pattern }

/-- The scene with another tree from now on. -/
def next (s : Scene) (t : Tree) : Scene := { s with tree := t, earlier := s.moments }

/-- A call with its effect, and its effect if it is broken off after some bytes. -/
def call (c : Call) (whole : Tree → Except Fault Tree)
    (part : Nat → Tree → Except Fault Tree) : ExceptT Fault (StateM Scene) Unit :=
  ExceptT.mk fun s =>
    match s.pattern c with
    | .refused cause => (.error cause, s.next s.tree)
    | .brokenOff bytes cause => (.error cause, s.next ((part bytes s.tree).toOption.getD s.tree))
    | .carriedOut =>
      match whole s.tree with
      | .error cause => (.error cause, s.next s.tree)
      | .ok t => (.ok (), s.next t)

instance : Store (StateM Scene) where
  read path := ExceptT.mk fun s => (s.tree.read path, s)
  isThere path := fun s => (s.tree.isThere path, s)
  create path := call (.create path) (·.create path) fun _ => .ok
  write path content := call (.write path) (·.write path content)
    fun bytes t => t.write path (content.extract 0 bytes)
  remove path := call (.remove path) (·.remove path) fun _ => .ok
  rename source path := call (.rename source path) (·.rename source path)
    fun _ => .ok
  copy source path := call (.copy source path) (·.copy source path)
    fun bytes => (·.copyPart bytes source path)

/-- A property holds of all trees there have been. -/
def Always (P : Tree → Prop) (s : Scene) : Prop := ∀ t ∈ s.moments, P t

section Calls

variable {s : Scene} {c : Call} {f : Tree → Except Fault Tree}
  {part : Nat → Tree → Except Fault Tree} {P : Tree → Prop} {t : Tree}

/-- A property that has always held holds of the next tree, too, if that has it. -/
theorem always_next_iff : (s.next t).Always P ↔ P t ∧ s.Always P := List.forall_mem_cons

/-- What has always held holds now. -/
theorem Always.now (h : s.Always P) : P s.tree := h _ List.mem_cons_self

/-- A call that changes nothing adds nothing to see. -/
theorem always_next_tree_iff : (s.next s.tree).Always P ↔ s.Always P :=
  always_next_iff.trans ⟨And.right, fun h => ⟨h.now, h⟩⟩

/-- A call that is carried out and that the tree allows changes the tree. -/
theorem run_call_of_ok (hpattern : s.pattern c = .carriedOut) (h : f s.tree = .ok t) :
    (call c f part).run s = (.ok (), s.next t) := by
  dsimp only [call, ExceptT.run, ExceptT.mk]
  rw [hpattern]
  dsimp only
  rw [h]

/-- A call that the tree does not allow is refused, and changes nothing. -/
theorem run_call_of_error {cause : Fault} (hpattern : s.pattern c = .carriedOut)
    (h : f s.tree = .error cause) :
    (call c f part).run s = (.error cause, s.next s.tree) := by
  dsimp only [call, ExceptT.run, ExceptT.mk]
  rw [hpattern]
  dsimp only
  rw [h]

/-- A call that is refused changes nothing. -/
theorem run_call_of_refused {cause : Fault} (hpattern : s.pattern c = .refused cause) :
    (call c f part).run s = (.error cause, s.next s.tree) := by
  dsimp only [call, ExceptT.run, ExceptT.mk]
  rw [hpattern]

/-- A call that is broken off leaves as much as it has done by then. -/
theorem run_call_of_brokenOff {bytes : Nat} {cause : Fault}
    (hpattern : s.pattern c = .brokenOff bytes cause) :
    (call c f part).run s =
      (.error cause, s.next ((part bytes s.tree).toOption.getD s.tree)) := by
  dsimp only [call, ExceptT.run, ExceptT.mk]
  rw [hpattern]

/-- A call that passes on no bytes changes nothing unless it is carried out and allowed. -/
theorem run_call_of_not_done
    (h : s.pattern c = .carriedOut → ∀ t, f s.tree ≠ .ok t) :
    ∃ cause, (call c f fun _ => .ok).run s = (.error cause, s.next s.tree) := by
  cases hpattern : s.pattern c with
  | refused cause => exact ⟨cause, run_call_of_refused hpattern⟩
  | brokenOff bytes cause => exact ⟨cause, run_call_of_brokenOff hpattern⟩
  | carriedOut =>
    cases hf : f s.tree with
    | ok t => exact absurd hf (h hpattern t)
    | error cause => exact ⟨cause, run_call_of_error hpattern hf⟩

end Calls

/-! ## Putting a draft at its path -/

section Place

variable {s : Scene} {draft path : String} {k l : Location} {c : ByteArray} {P : Tree → Prop}

/-- Whether or not a file can be taken away, nothing else changes. -/
theorem run_remove (hspot : s.tree.spotOfFile path = .ok l)
    (hfile : s.tree.find? l = some (.file c)) :
    ∃ result t, (Store.remove (m := StateM Scene) path).run s = (result, s.next t) ∧
      SameWays s.tree t ∧ ∀ j, j ≠ l → t.find? j = s.tree.find? j := by
  by_cases hpattern : s.pattern (.remove path) = .carriedOut
  · have hremove : s.tree.remove path = .ok (s.tree.erase l) :=
      remove_eq_ok_iff.mpr ⟨l, c, hspot, hfile, rfl⟩
    exact ⟨_, _, run_call_of_ok hpattern hremove,
      SameWays.erase (Tree.hasDirectory_of_file hfile), fun j => Tree.find?_erase_of_ne _⟩
  · obtain ⟨cause, hkept⟩ := run_call_of_not_done (s := s) (c := .remove path)
      (f := (·.remove path)) fun h => absurd h hpattern
    exact ⟨_, _, hkept, SameWays.refl _, fun _ _ => rfl⟩

/-- What is done with a draft that cannot be moved. -/
def copyOver (draft path : String) : ExceptT Fault (StateM Scene) Unit := do
  Store.copy draft path
  Store.remove draft

/-- What is left to do once a path has been cleared. -/
def place (draft path : String) : ExceptT Fault (StateM Scene) Unit :=
  tryCatch (Store.rename draft path) fun _ => copyOver draft path

variable (hdraft : s.tree.spotOfFile draft = .ok k)
  (hcontent : s.tree.find? k = some (.file c)) (hpath : s.tree.spotOfFile path = .ok l)
  (hother : l ≠ k) (hP : ∀ t : Tree, t.shown path = some (.file c) → P t)
include hdraft hcontent hpath hother hP

/-- A copy keeps what holds of the text at its path, unless it is broken off. -/
theorem always_copyOver_iff :
    ((copyOver draft path).run s).2.Always P ↔ s.Always P ∧
      ∀ bytes cause, s.pattern (.copy draft path) = .brokenOff bytes cause →
        P (s.tree.put l (.file (c.extract 0 bytes))) := by
  obtain ⟨-, -, -, -, hfree⟩ := spotOfFile_eq_ok_iff.mp hpath
  have hl : l ≠ [] := Tree.ne_nil_of_hasDirectory hfree
  have hlocate : s.tree.locate draft = .ok (k, .file c) := by
    rw [Tree.locate_of_spotOfFile hdraft, hcontent]
  cases hcopy : s.pattern (.copy draft path) with
  | refused cause =>
    have hcopied : (Store.copy (m := StateM Scene) draft path).run s =
        (.error cause, s.next s.tree) := run_call_of_refused hcopy
    rw [copyOver, run_bind_of_error hcopied, always_next_tree_iff]
    exact ⟨fun h => ⟨h, nofun⟩, And.left⟩
  | brokenOff bytes cause =>
    have hpart : s.tree.copyPart bytes draft path =
        .ok (s.tree.put l (.file (c.extract 0 bytes))) :=
      bind_eq_ok_iff.mpr ⟨(k, .file c), hlocate, write_eq_ok_iff.mpr ⟨l, hpath, rfl⟩⟩
    have hcopied : (Store.copy (m := StateM Scene) draft path).run s =
        (.error cause, s.next (s.tree.put l (.file (c.extract 0 bytes)))) := by
      refine (run_call_of_brokenOff hcopy).trans ?_
      rw [hpart]
      rfl
    rw [copyOver, run_bind_of_error hcopied, always_next_iff, and_comm]
    refine and_congr_right fun _ => ⟨?_, fun h => h bytes cause rfl⟩
    rintro h bytes' cause' heq
    obtain ⟨rfl, -⟩ := Verdict.brokenOff.inj heq
    exact h
  | carriedOut =>
    have hwhole : s.tree.copy draft path = .ok (s.tree.put l (.file c)) :=
      copy_eq_ok_iff.mpr ⟨k, c, l, hlocate, hpath, rfl⟩
    have hcopied : (Store.copy (m := StateM Scene) draft path).run s =
        (.ok (), s.next (s.tree.put l (.file c))) := run_call_of_ok hcopy hwhole
    have hways : SameWays s.tree (s.tree.put l (.file c)) := SameWays.put hfree c
    have hhere : (s.tree.put l (.file c)).find? l = some (.file c) := Tree.find?_put_self _ hl _
    have hstill : (s.tree.put l (.file c)).find? k = some (.file c) := by
      rw [Tree.find?_put_of_ne _ hother.symm, hcontent]
    obtain ⟨result, t, hremoved, hways', hkept⟩ :=
      run_remove (s := s.next (s.tree.put l (.file c))) (hways.spotOfFile hdraft) hstill
    -- Whether the draft could be taken away makes no difference for the path.
    have hboth : P t ∧ P (s.tree.put l (.file c)) := by
      refine ⟨hP _ ?_, hP _ ?_⟩
      · rw [Tree.shown_of_spotOfFile (hways'.spotOfFile (hways.spotOfFile hpath)),
          hkept l hother]
        exact hhere
      · rw [Tree.shown_of_spotOfFile (hways.spotOfFile hpath), hhere]
    rw [copyOver, run_bind_of_ok hcopied, hremoved, always_next_iff, always_next_iff]
    exact ⟨fun h => ⟨h.2.2, nofun⟩, fun h => ⟨hboth.1, hboth.2, h.1⟩⟩

/-- **A text comes to its path at once unless it is copied there.** -/
theorem always_place_iff :
    ((place draft path).run s).2.Always P ↔ s.Always P ∧
      (s.pattern (.rename draft path) ≠ .carriedOut → ∀ bytes cause,
        s.pattern (.copy draft path) = .brokenOff bytes cause →
        P (s.tree.put l (.file (c.extract 0 bytes)))) := by
  obtain ⟨-, -, -, -, hfreek⟩ := spotOfFile_eq_ok_iff.mp hdraft
  obtain ⟨-, -, -, -, hfree⟩ := spotOfFile_eq_ok_iff.mp hpath
  by_cases hrename : s.pattern (.rename draft path) = .carriedOut
  · have hmoved : s.tree.rename draft path = .ok ((s.tree.erase k).put l (.file c)) :=
      rename_eq_ok_iff.mpr ⟨k, c, l, hdraft, hcontent, hpath, rfl⟩
    have herased : SameWays s.tree (s.tree.erase k) := SameWays.erase hfreek
    have hways : SameWays s.tree ((s.tree.erase k).put l (.file c)) :=
      herased.trans (SameWays.put ((herased.directories l).trans hfree) c)
    have hnew : P ((s.tree.erase k).put l (.file c)) := by
      refine hP _ ?_
      rw [Tree.shown_of_spotOfFile (hways.spotOfFile hpath)]
      exact Tree.find?_put_self _ (Tree.ne_nil_of_hasDirectory hfree) _
    have hrun : (place draft path).run s = (.ok (), s.next ((s.tree.erase k).put l (.file c))) :=
      run_tryCatch_of_ok (run_call_of_ok hrename hmoved)
    rw [hrun, always_next_iff]
    exact ⟨fun h => ⟨h.2, fun hne => absurd hrename hne⟩, fun h => ⟨hnew, h.1⟩⟩
  · obtain ⟨cause, hkept⟩ := run_call_of_not_done (s := s) (c := .rename draft path)
      (f := (·.rename draft path)) fun h => absurd h hrename
    have hrun : (place draft path).run s = (copyOver draft path).run (s.next s.tree) :=
      run_tryCatch_of_error hkept
    rw [hrun,
      always_copyOver_iff (s := s.next s.tree) hdraft hcontent hpath hother hP,
      always_next_tree_iff]
    exact and_congr_right fun _ => ⟨fun h _ => h, fun h => h hrename⟩

end Place

/-! ## The whole replacement -/

section Install

variable {s : Scene} {draft path : String} {k l : Location} {c : ByteArray} {P : Tree → Prop}

/-- A draft is put in its place by clearing the path and then moving or copying it there. -/
theorem install_eq (draft path : String) :
    install (m := StateM Scene) draft path = (do clear path; place draft path) := rfl

/-- Looking whether something is there changes nothing. -/
theorem isThere_eq (s : Scene) (path : String) {b : Bool} (h : (s.tree.shown path).isSome = b) :
    (Store.isThere path : StateM Scene Bool).run s = (b, s) :=
  congrArg (·, s) ((Tree.isThere_eq_isSome_shown s.tree path).trans h)

/-- **What stands at the path is taken away first**, so what holds of the trees that show it
or the text is lost unless that is refused. -/
theorem always_install_iff (hdraft : s.tree.spotOfFile draft = .ok k)
    (hcontent : s.tree.find? k = some (.file c)) (hpath : s.tree.spotOfFile path = .ok l)
    (hother : l ≠ k) (hP : ∀ t : Tree, t.shown path = some (.file c) → P t)
    (hgone : ∀ t : Tree, t.shown path = none → P t → s.tree.shown path = none) :
    ((install (m := StateM Scene) draft path).run s).2.Always P ↔ s.Always P ∧
      ((s.tree.shown path).isSome → s.pattern (.remove path) ≠ .carriedOut) ∧
      (s.pattern (.rename draft path) ≠ .carriedOut → ∀ bytes cause,
        s.pattern (.copy draft path) = .brokenOff bytes cause →
        P (s.tree.put l (.file (c.extract 0 bytes)))) := by
  obtain ⟨-, -, -, -, hfree⟩ := spotOfFile_eq_ok_iff.mp hpath
  rw [install_eq]
  cases hthere : (s.tree.shown path).isSome with
  | false =>
    rw [run_bind_of_ok (run_clear_of_not_isThere (isThere_eq s path hthere)),
      always_place_iff hdraft hcontent hpath hother hP]
    exact and_congr_right fun _ => ⟨fun h => ⟨nofun, h⟩, And.right⟩
  | true =>
    by_cases hremove : s.pattern (.remove path) = .carriedOut
    · -- Then there is a moment at which the path leads to nothing.
      have hremoved : s.tree.remove path = .ok (s.tree.erase l) :=
        Tree.remove_of_isThere hpath ((Tree.isThere_eq_isSome_shown _ _).trans hthere)
      have hways : SameWays s.tree (s.tree.erase l) := SameWays.erase hfree
      have hpath' : (s.tree.erase l).spotOfFile path = .ok l := hways.spotOfFile hpath
      have hcontent' : (s.tree.erase l).find? k = some (.file c) := by
        rw [Tree.find?_erase_of_ne _ hother.symm, hcontent]
      have hnothing : (s.tree.erase l).shown path = none := by
        rw [Tree.shown_of_spotOfFile hpath',
          Tree.find?_erase_self _ (Tree.ne_nil_of_hasDirectory hfree)]
      rw [run_bind_of_ok (run_clear_of_isThere (isThere_eq s path hthere)
          (run_call_of_ok hremove hremoved)),
        always_place_iff (s := s.next (s.tree.erase l)) (hways.spotOfFile hdraft) hcontent' hpath'
          hother hP,
        always_next_iff]
      refine ⟨fun h => ?_, fun h => absurd hremove (h.2.1 rfl)⟩
      rw [hgone _ hnothing h.1.1] at hthere
      contradiction
    · obtain ⟨cause, hkept⟩ := run_call_of_not_done (s := s) (c := .remove path)
        (f := (·.remove path)) fun h => absurd h hremove
      rw [run_bind_of_ok (run_clear_of_isThere (isThere_eq s path hthere) hkept),
        always_place_iff (s := s.next s.tree) hdraft hcontent hpath hother hP,
        always_next_tree_iff]
      exact and_congr_right fun _ => ⟨fun h => ⟨fun _ => hremove, h⟩, And.right⟩

/-- Where there is no spot for a file no copy comes, whatever the pattern. -/
theorem run_copy_of_no_spot (draft : String) (hnone : ∀ l, s.tree.spotOfFile path ≠ .ok l) :
    ∃ cause, (Store.copy (m := StateM Scene) draft path).run s =
      (.error cause, s.next s.tree) := by
  cases hpattern : s.pattern (.copy draft path) with
  | refused cause => exact ⟨cause, run_call_of_refused hpattern⟩
  | brokenOff bytes cause =>
    refine ⟨cause, (run_call_of_brokenOff hpattern).trans ?_⟩
    cases hpart : s.tree.copyPart bytes draft path with
    | error _ => rfl
    | ok t =>
      obtain ⟨⟨_, e⟩, -, hwrite⟩ := bind_eq_ok_iff.mp hpart
      cases e with
      | directory => contradiction
      | file content =>
        obtain ⟨l, hspot, -⟩ := write_eq_ok_iff.mp hwrite
        exact absurd hspot (hnone l)
  | carriedOut =>
    cases hcopy : s.tree.copy draft path with
    | error cause => exact ⟨cause, run_call_of_error hpattern hcopy⟩
    | ok t =>
      obtain ⟨_, _, l, -, hspot, -⟩ := copy_eq_ok_iff.mp hcopy
      exact absurd hspot (hnone l)

/-- Nothing comes to a path that has no place for a file and leads to nothing. -/
theorem always_install_of_no_spot (draft : String)
    (hnone : ∀ l, s.tree.spotOfFile path ≠ .ok l) (hnothing : s.tree.shown path = none) :
    ((install (m := StateM Scene) draft path).run s).2.Always P ↔ s.Always P := by
  have hthere : (s.tree.shown path).isSome = false := by rw [hnothing]; rfl
  obtain ⟨moving, hmoved⟩ := run_call_of_not_done (s := s) (c := .rename draft path)
    (f := (·.rename draft path)) (by
      rintro - t hmove
      obtain ⟨_, _, l, -, -, hspot, -⟩ := rename_eq_ok_iff.mp hmove
      exact hnone l hspot)
  obtain ⟨cause, hcopied⟩ := run_copy_of_no_spot (s := s.next s.tree) draft hnone
  have hplaced : (place draft path).run s = (.error cause, (s.next s.tree).next s.tree) :=
    (run_tryCatch_of_error hmoved).trans (run_bind_of_error hcopied)
  rw [install_eq, run_bind_of_ok (run_clear_of_not_isThere (isThere_eq s path hthere)), hplaced,
    always_next_iff, always_next_tree_iff]
  exact ⟨And.right, fun h => ⟨h.now, h⟩⟩

end Install

section ReplaceBy

variable {s : Scene} {draft path text : String} {k : Location}

/-- A path leads to what it led to, or to the text. -/
def IsWhole (path : String) (old : Option Entry) (c : ByteArray) (t : Tree) : Prop :=
  t.shown path = old ∨ t.shown path = some (.file c)

/-- Under a pattern, a draft comes to its path at once or not at all: what stood there is not
taken away, and no copy leaves a part of the text. -/
def ComesAtOnce (pattern : Call → Verdict) (draft path : String) (old : Option Entry)
    (c : ByteArray) : Prop :=
  (old.isSome → pattern (.remove path) ≠ .carriedOut) ∧
    (pattern (.rename draft path) ≠ .carriedOut → ∀ bytes cause,
      pattern (.copy draft path) = .brokenOff bytes cause →
        some (.file (c.extract 0 bytes)) = old ∨ c.extract 0 bytes = c)

/-- **Putting a draft in its place keeps the path whole** exactly if the draft comes there at
once or not at all. -/
theorem always_install_whole_iff {l : Location} {c : ByteArray} {old : Option Entry}
    (hdraft : s.tree.spotOfFile draft = .ok k) (hcontent : s.tree.find? k = some (.file c))
    (hpath : s.tree.spotOfFile path = .ok l) (hother : l ≠ k)
    (hold : s.tree.shown path = old) :
    ((install (m := StateM Scene) draft path).run s).2.Always (IsWhole path old c) ↔
      s.Always (IsWhole path old c) ∧ ComesAtOnce s.pattern draft path old c := by
  obtain ⟨-, -, -, -, hfree⟩ := spotOfFile_eq_ok_iff.mp hpath
  have hpart : ∀ c' : ByteArray, IsWhole path old c (s.tree.put l (.file c')) ↔
      some (.file c') = old ∨ c' = c := by
    intro c'
    have hways : SameWays s.tree (s.tree.put l (.file c')) := SameWays.put hfree c'
    rw [IsWhole, Tree.shown_of_spotOfFile (hways.spotOfFile hpath),
      Tree.find?_put_self _ (Tree.ne_nil_of_hasDirectory hfree), Option.some.injEq,
      Entry.file.injEq]
  have hgone : ∀ t : Tree, t.shown path = none → IsWhole path old c t →
      s.tree.shown path = none := by
    rintro t hnothing (hsame | hnew)
    · rw [hold, ← hsame, hnothing]
    · rw [hnothing] at hnew
      contradiction
  rw [always_install_iff hdraft hcontent hpath hother (fun _ => .inr) hgone, hold, ComesAtOnce]
  simp only [hpart]

/-- The same in a scene that differs from a tree by a draft, whether or not the path has a
place for a file. -/
theorem always_install_of_differsAt {t : Tree} {c : ByteArray}
    (hfile : t.shown path ≠ some .directory) (hspot : t.spotOfFile draft = .ok k)
    (hother : ∀ l, t.spotOfFile path = .ok l → l ≠ k)
    (hdiffers : DiffersAt t s.tree k (some (.file c))) :
    ((install (m := StateM Scene) draft path).run s).2.Always (IsWhole path (t.shown path) c) ↔
      s.Always (IsWhole path (t.shown path) c) ∧ ((∃ l, t.spotOfFile path = .ok l) →
        ComesAtOnce s.pattern draft path (t.shown path) c) := by
  obtain ⟨-, -, -, -, hfree⟩ := spotOfFile_eq_ok_iff.mp hspot
  have hways : SameWays t s.tree := hdiffers.sameWays hfree nofun
  by_cases hpath : ∃ l, t.spotOfFile path = .ok l
  · obtain ⟨l, hl⟩ := hpath
    have hold : s.tree.shown path = t.shown path :=
      Tree.shown_of_differsAt hdiffers hfree nofun hfile hother
    rw [always_install_whole_iff (hways.spotOfFile hspot) hdiffers.here (hways.spotOfFile hl)
      (hother l hl) hold]
    exact and_congr_right fun _ => ⟨fun h _ => h, fun h => h ⟨l, hl⟩⟩
  · have hnone : ∀ l, t.spotOfFile path ≠ .ok l := fun l hl => hpath ⟨l, hl⟩
    rw [always_install_of_no_spot draft (fun l hl => hnone l (hways.symm.spotOfFile hl))
      (Tree.shown_eq_none_of_no_spot hways hfile hnone)]
    exact ⟨fun h => ⟨h, fun h => absurd h hpath⟩, And.left⟩

/-- A draft that is not written whole is all that has changed. -/
theorem run_write_of_not_carriedOut (c : ByteArray) (hspot : s.tree.spotOfFile draft = .ok k)
    (hwrite : s.pattern (.write draft) ≠ .carriedOut) :
    ∃ cause t e, (Store.write (m := StateM Scene) draft c).run s = (.error cause, s.next t) ∧
      DiffersAt s.tree t k e ∧ e ≠ some .directory := by
  obtain ⟨-, -, -, -, hfree⟩ := spotOfFile_eq_ok_iff.mp hspot
  cases hpattern : s.pattern (.write draft) with
  | carriedOut => exact absurd hpattern hwrite
  | refused cause =>
    refine ⟨cause, s.tree, _, run_call_of_refused hpattern, ⟨rfl, rfl, fun _ _ => rfl⟩, ?_⟩
    rw [ne_eq, ← Tree.hasDirectory_eq_true_iff, hfree]
    exact Bool.false_ne_true
  | brokenOff bytes cause =>
    have hpart : s.tree.write draft (c.extract 0 bytes) =
        .ok (s.tree.put k (.file (c.extract 0 bytes))) := write_eq_ok_iff.mpr ⟨k, hspot, rfl⟩
    refine ⟨cause, s.tree.put k (.file (c.extract 0 bytes)), _, ?_,
      DiffersAt.put (Tree.ne_nil_of_hasDirectory hfree) _ _, nofun⟩
    refine (run_call_of_brokenOff hpattern).trans ?_
    rw [hpart]
    rfl

/-- What is left to do once a draft has been created. -/
def fill (draft path text : String) : ExceptT Fault (StateM Scene) Unit := do
  Store.write draft text.toUTF8
  install draft path

/-- A draft is created before it is filled and put in its place. -/
theorem replaceBy_eq (draft path text : String) :
    replaceBy (m := StateM Scene) draft path text =
      (do Store.create draft; fill draft path text) := rfl

/-- Once a draft has been created, the path is kept whole exactly if the text is not written to
it, or the draft then comes at once. -/
theorem always_fill_iff {t : Tree} (hfile : t.shown path ≠ some .directory)
    (hspot : t.spotOfFile draft = .ok k) (hother : ∀ l, t.spotOfFile path = .ok l → l ≠ k)
    (hdiffers : DiffersAt t s.tree k (some (.file .empty))) :
    ((fill draft path text).run s).2.Always (IsWhole path (t.shown path) text.toUTF8) ↔
      s.Always (IsWhole path (t.shown path) text.toUTF8) ∧
        ((∃ l, t.spotOfFile path = .ok l) → s.pattern (.write draft) = .carriedOut →
          ComesAtOnce s.pattern draft path (t.shown path) text.toUTF8) := by
  obtain ⟨-, -, -, -, hfree⟩ := spotOfFile_eq_ok_iff.mp hspot
  have hspot' : s.tree.spotOfFile draft = .ok k := (hdiffers.sameWays hfree nofun).spotOfFile hspot
  -- Whatever has become of the draft, the path still leads to what it led to.
  have hstill : ∀ {t' e}, DiffersAt s.tree t' k e → e ≠ some .directory →
      IsWhole path (t.shown path) text.toUTF8 t' :=
    fun hnext he => .inl (Tree.shown_of_differsAt (hdiffers.trans hnext) hfree he hfile hother)
  by_cases hwrite : s.pattern (.write draft) = .carriedOut
  · have hwritten : s.tree.write draft text.toUTF8 =
        .ok (s.tree.put k (.file text.toUTF8)) := write_eq_ok_iff.mpr ⟨k, hspot', rfl⟩
    have hfull := DiffersAt.put (Tree.ne_nil_of_hasDirectory hfree) s.tree (.file text.toUTF8)
    have hrun : (fill draft path text).run s = (install (m := StateM Scene) draft path).run
        (s.next (s.tree.put k (.file text.toUTF8))) :=
      run_bind_of_ok (run_call_of_ok hwrite hwritten)
    rw [hrun, always_install_of_differsAt hfile hspot hother (hdiffers.trans hfull),
      always_next_iff]
    exact ⟨fun h => ⟨h.1.2, fun hpath _ => h.2 hpath⟩,
      fun h => ⟨⟨hstill hfull nofun, h.1⟩, fun hpath => h.2 hpath hwrite⟩⟩
  · obtain ⟨cause, t', e, hrun, hnext, he⟩ :=
      run_write_of_not_carriedOut text.toUTF8 hspot' hwrite
    rw [fill, run_bind_of_error hrun, always_next_iff]
    exact ⟨fun h => ⟨h.2, fun _ h => absurd h hwrite⟩, fun h => ⟨hstill hnext he, h.1⟩⟩

/-- **A replacement by a draft keeps the path whole** exactly if the draft is not written to its
end, or then comes at once. -/
theorem always_replaceBy_iff (hfile : s.tree.shown path ≠ some .directory)
    (hspot : s.tree.spotOfFile draft = .ok k)
    (hother : ∀ l, s.tree.spotOfFile path = .ok l → l ≠ k) :
    ((replaceBy (m := StateM Scene) draft path text).run s).2.Always
        (IsWhole path (s.tree.shown path) text.toUTF8) ↔
      s.Always (IsWhole path (s.tree.shown path) text.toUTF8) ∧
        ((∃ l, s.tree.spotOfFile path = .ok l) → s.pattern (.create draft) = .carriedOut →
          s.pattern (.write draft) = .carriedOut →
          ComesAtOnce s.pattern draft path (s.tree.shown path) text.toUTF8) := by
  obtain ⟨-, -, -, -, hfree⟩ := spotOfFile_eq_ok_iff.mp hspot
  by_cases hcreate : s.pattern (.create draft) = .carriedOut
  · have hcreated : s.tree.create draft = .ok (s.tree.put k (.file .empty)) :=
      write_eq_ok_iff.mpr ⟨k, hspot, rfl⟩
    have hempty := DiffersAt.put (Tree.ne_nil_of_hasDirectory hfree) s.tree (.file .empty)
    have hrun : (replaceBy (m := StateM Scene) draft path text).run s =
        (fill draft path text).run (s.next (s.tree.put k (.file .empty))) :=
      run_bind_of_ok (run_call_of_ok hcreate hcreated)
    rw [hrun, always_fill_iff hfile hspot hother hempty, always_next_iff]
    have hold : IsWhole path (s.tree.shown path) text.toUTF8 (s.tree.put k (.file .empty)) :=
      .inl (Tree.shown_of_differsAt hempty hfree nofun hfile hother)
    exact ⟨fun h => ⟨h.1.2, fun hpath _ => h.2 hpath⟩,
      fun h => ⟨⟨hold, h.1⟩, fun hpath => h.2 hpath hcreate⟩⟩
  · obtain ⟨cause, hkept⟩ := run_call_of_not_done (s := s) (c := .create draft)
      (f := (·.create draft)) fun h => absurd h hcreate
    rw [replaceBy_eq, run_bind_of_error (x := Store.create draft) hkept, always_next_tree_iff]
    exact ⟨fun h => ⟨h, fun _ h => absurd h hcreate⟩, And.left⟩

/-- A draft that has no place is not even begun. -/
theorem run_replaceBy_of_no_spot (path text : String)
    (hnone : ∀ k, s.tree.spotOfFile draft ≠ .ok k) :
    ∃ cause, (replaceBy (m := StateM Scene) draft path text).run s =
      (.error cause, s.next s.tree) := by
  obtain ⟨cause, hkept⟩ := run_call_of_not_done (s := s) (c := .create draft)
    (f := (·.create draft)) (by
      rintro - t hcreate
      obtain ⟨k, hspot, -⟩ := write_eq_ok_iff.mp hcreate
      exact hnone k hspot)
  exact ⟨cause, run_bind_of_error hkept⟩

end ReplaceBy

/-- **When a replacement is atomic**: at every moment the path leads to what it led to, or
to the whole text, exactly if no draft is written to its end, or the draft then comes to the
path at once. That is a matter of the pattern alone, but for what the path led to before. -/
theorem replace_atomic_iff (t : Tree) (pattern : Call → Verdict) (path text : String)
    (hfile : t.shown path ≠ some .directory) :
    ((replace (m := StateM Scene) path text).run (start t pattern)).2.Always
        (IsWhole path (t.shown path) text.toUTF8) ↔
      ∀ target n k l, Target.ofPath? path = some target → target.IsFirstDraft t n →
        t.spotOfFile (target.draft n) = .ok k → t.spotOfFile path = .ok l →
        pattern (.create (target.draft n)) = .carriedOut →
        pattern (.write (target.draft n)) = .carriedOut →
        ComesAtOnce pattern (target.draft n) path (t.shown path) text.toUTF8 := by
  have hstart : (start t pattern).Always (IsWhole path (t.shown path) text.toUTF8) := by
    intro m hm
    obtain rfl := List.mem_singleton.mp hm
    exact .inl rfl
  rcases run_replace_eq (s := start t pattern) (t := t) (fun _ => rfl) path text with
    ⟨fault, hrun, hnone⟩ | ⟨target, n, htarget, hfirst, hrun⟩
  · rw [hrun]
    refine ⟨fun _ target n k l htarget hfirst => ?_, fun _ => hstart⟩
    exact absurd hfirst (hnone target n htarget)
  · have hsame : ((replace (m := StateM Scene) path text).run (start t pattern)).2 =
        ((replaceBy (m := StateM Scene) (target.draft n) path text).run (start t pattern)).2 :=
      congrArg Prod.snd hrun
    rw [hsame]
    by_cases hplace : ∃ k, t.spotOfFile (target.draft n) = .ok k
    · obtain ⟨k, hspot⟩ := hplace
      have hother : ∀ l, t.spotOfFile path = .ok l → l ≠ k :=
        fun l => Target.ne_of_spotOfFile_draft htarget hspot
      refine (always_replaceBy_iff (s := start t pattern) hfile hspot hother).trans ?_
      constructor
      · intro h target' n' k' l htarget' hfirst' _ hpath hcreate hwrite
        rw [Target.draft_unique htarget' hfirst' htarget hfirst] at hcreate hwrite ⊢
        exact h.2 ⟨l, hpath⟩ hcreate hwrite
      · intro h
        refine ⟨hstart, ?_⟩
        rintro ⟨l, hpath⟩ hcreate hwrite
        exact h target n k l htarget hfirst hspot hpath hcreate hwrite
    · obtain ⟨cause, hended⟩ := run_replaceBy_of_no_spot (s := start t pattern) path text
        fun k hspot => hplace ⟨k, hspot⟩
      rw [hended]
      refine ⟨fun _ target' n' k' l htarget' hfirst' hspot => ?_, fun _ => ?_⟩
      · exact absurd ⟨k', Target.draft_unique htarget' hfirst' htarget hfirst ▸ hspot⟩ hplace
      · exact always_next_tree_iff.mpr hstart

/-- A file that is there cannot be taken away, and so the draft is moved over it. -/
theorem replace_atomic_iff_refused :
    let t : Tree := { entries := [(["o"], .file "old".toUTF8)], work := [] }
    let pattern : Call → Verdict := fun c => if c = .remove "o" then .refused .busy else .carriedOut
    ((replace (m := StateM Scene) "o" "new").run (start t pattern)).2.Always
      (IsWhole "o" (some (.file "old".toUTF8)) "new".toUTF8) := by
  intro t pattern
  have hshown : t.shown "o" = some (.file "old".toUTF8) := rfl
  have hfile : t.shown "o" ≠ some .directory := by
    rw [hshown]
    nofun
  rw [← hshown]
  refine (replace_atomic_iff t pattern "o" "new" hfile).mpr ?_
  intro target n k l _ _ _ _ _ _
  exact ⟨fun _ => nofun, fun hmoved => absurd rfl hmoved⟩

/-- With every call carried out, there is a moment at which a file that was there and is to be
replaced is not there. Where it cannot be taken away nor the draft be moved, and the copy is
broken off, a part of the text stays behind. -/
theorem replace_not_atomic :
    let t : Tree := { entries := [(["o"], .file "old".toUTF8)], work := [] }
    let carried := (replace (m := StateM Scene) "o" "new").run (start t fun _ => .carriedOut)
    let broken := (replace (m := StateM Scene) "o" "new").run (start t fun c =>
      if c = .remove "o" ∨ c = .rename "./o.tmp0" "o" then .refused .busy
      else if c = .copy "./o.tmp0" "o" then .brokenOff 1 .busy
      else .carriedOut)
    t.shown "o" = some (.file "old".toUTF8) ∧
      carried.1 = .ok () ∧ (∃ m ∈ carried.2.moments, m.shown "o" = none) ∧
      broken.1 = .error (.failed .busy) ∧
      broken.2.tree.shown "o" = some (.file "n".toUTF8) := by
  intro t carried broken
  have hcut : "new".toUTF8.extract 0 1 = "n".toUTF8 := by decide
  refine ⟨rfl, rfl, ⟨_, List.mem_cons_of_mem _ List.mem_cons_self, rfl⟩, rfl, ?_⟩
  rw [← hcut]
  rfl

end Scene

end ScriptFront.File
