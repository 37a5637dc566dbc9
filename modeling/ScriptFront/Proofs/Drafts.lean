/-
Drafts: how they are named, and how a free one is found.

A draft stands beside its target: the last piece of its path is the target's name with a
mark and a number (`Target.getLast?_pieces_draft`). A path that leads to a name has that
name for its target (`Target.ofPath?_of_getLast?`), so a draft never has the name of the
file it is a draft for.

The search asks for one draft after another and changes nothing. What it comes up with
is the first one that is not there (`Target.run_freeDraft?`); the induction is on the number
of drafts that are still to be tried.
-/
import ScriptFront.File.Replacement
import ScriptFront.Proofs.Decimal
import ScriptFront.Proofs.Spots

set_option autoImplicit false

namespace ScriptFront

/-! ## Pieces of a text -/

namespace Text

variable {separator : Char} {s : List Char}

/-- No piece of a split text has the separator in it. -/
theorem notMem_of_mem_split {piece : List Char} (h : piece ∈ split separator s) :
    separator ∉ piece := by
  induction s generalizing piece with
  | nil =>
    rw [split, List.mem_singleton] at h
    rw [h]
    exact List.not_mem_nil
  | cons c s ih =>
    unfold split at h
    split at h
    · rcases List.mem_cons.mp h with rfl | hrest
      · exact List.not_mem_nil
      · exact ih hrest
    · next hc =>
      split at h
      · next hnil => exact absurd hnil (split_ne_nil separator s)
      · next first more hsplit =>
        rcases List.mem_cons.mp h with rfl | hrest
        · rw [List.mem_cons, not_or]
          exact ⟨fun hsame => hc hsame.symm, ih (hsplit ▸ List.mem_cons_self)⟩
        · exact ih (hsplit ▸ List.mem_cons_of_mem _ hrest)

/-- Splitting goes on the same on both sides of a separator. -/
theorem split_append_separator (separator : Char) (s s' : List Char) :
    split separator (s ++ separator :: s') = split separator s ++ split separator s' := by
  induction s with
  | nil =>
    have hcut : split separator (separator :: s') = [] :: split separator s' := by
      rw [split, if_pos rfl]
    exact hcut
  | cons c s ih =>
    rw [List.cons_append, split, split, ih]
    split
    · rfl
    · cases hsplit : split separator s with
      | nil => exact absurd hsplit (split_ne_nil separator s)
      | cons first more => rfl

/-- A text without the separator is one piece. -/
theorem split_of_notMem (h : separator ∉ s) : split separator s = [s] := by
  induction s with
  | nil => rfl
  | cons c s ih =>
    rw [List.mem_cons, not_or] at h
    rw [split, if_neg fun hsame => h.1 hsame.symm, ih h.2]

/-- Behind the last separator there is the last piece. -/
theorem getLast?_pieces_append {text tail : String} (h : separator ∉ tail.toList)
    (hs : text.toList = s ++ separator :: tail.toList) :
    (pieces separator text).getLast? = some tail := by
  rw [pieces, hs, split_append_separator, split_of_notMem h, List.map_append, List.map_singleton,
    List.getLast?_concat, String.ofList_toList]

end Text

namespace File

open File.Tree (IsName)

/-! ## The pieces that lead somewhere -/

/-- Dropping the pieces that lead nowhere leaves pieces of the path. -/
theorem mem_of_mem_settled {pieces : List String} {piece : String} (h : piece ∈ settled pieces) :
    piece ∈ pieces := by
  rw [settled, List.mem_reverse] at h
  exact List.mem_reverse.mp ((List.dropWhile_suffix _).subset h)

/-- A name at the end leads somewhere, so nothing is dropped behind it. -/
theorem settled_concat (pieces : List String) {name : String} (h : IsName name) :
    settled (pieces ++ [name]) = pieces ++ [name] := by
  have hmoves : ¬staysPut name = true := by
    simp only [staysPut, Bool.or_eq_true, decide_eq_true_eq, not_or]
    exact ⟨h.1, h.2.1⟩
  rw [settled, List.reverse_append, List.reverse_singleton, List.singleton_append,
    List.dropWhile_cons_of_neg hmoves, List.reverse_cons, List.reverse_reverse]

/-- What is left after the opening of a path are pieces of the path. -/
theorem mem_of_mem_opening {pieces : List String} {piece : String}
    (h : piece ∈ (opening pieces).2) : piece ∈ pieces := by
  unfold opening at h
  split at h
  · exact List.mem_cons_of_mem _ h
  · exact List.mem_cons_of_mem _ h
  · exact h

/-- What a path opens with does not reach to a name at its end. -/
theorem opening_concat (pieces : List String) {name : String} (h : IsName name) :
    ∃ before, (opening (pieces ++ [name])).2 = before ++ [name] := by
  cases pieces with
  | nil =>
    refine ⟨[], ?_⟩
    unfold opening
    split
    · next hfirst => exact absurd (List.cons.inj hfirst).1 h.1
    · next hfirst => exact absurd (List.cons.inj hfirst).1 h.2.1
    · rfl
  | cons first pieces =>
    unfold opening
    split
    · next hfirst => exact ⟨pieces, (List.cons.inj hfirst).2.symm⟩
    · next hfirst => exact ⟨pieces, (List.cons.inj hfirst).2.symm⟩
    · exact ⟨first :: pieces, rfl⟩

namespace Target

variable {target : Target} {path : String}

/-! ## Names -/

/-- The target of a path that ends in a name has that name. -/
theorem ofPath?_of_getLast? {name : String} (h : IsName name)
    (hlast : (Text.pieces '/' path).getLast? = some name) :
    ∃ directory, ofPath? path = some { directory, name } := by
  obtain ⟨pieces, hpieces⟩ := List.getLast?_eq_some_iff.mp hlast
  obtain ⟨before, hbody⟩ := opening_concat pieces h
  unfold ofPath?
  rw [hpieces]
  dsimp only
  rw [hbody, settled_concat before h, List.reverse_append, List.reverse_singleton,
    List.singleton_append]
  dsimp only
  rw [if_neg h.2.2]
  exact ⟨_, rfl⟩

/-- A target's name is a piece of the path, if it has one. -/
theorem slash_notMem_name (h : ofPath? path = some target) : '/' ∉ target.name.toList := by
  unfold ofPath? at h
  dsimp only at h
  split at h
  · split at h
    · rw [← Option.some.inj h]
      exact List.not_mem_nil
    · contradiction
  · next last before hsettled =>
    rw [← Option.some.inj h]
    dsimp only
    split
    · exact List.not_mem_nil
    · have hmem : last ∈ Text.pieces '/' path := by
        apply mem_of_mem_opening
        apply mem_of_mem_settled
        rw [← List.mem_reverse, hsettled]
        exact List.mem_cons_self
      obtain ⟨piece, hpiece, rfl⟩ := List.mem_map.mp hmem
      rw [String.toList_ofList]
      exact Text.notMem_of_mem_split hpiece

/-- The name of the `n`-th draft. -/
def draftName (target : Target) (n : Nat) : String := target.name ++ ".tmp" ++ toString n

theorem toList_draftName (target : Target) (n : Nat) :
    (target.draftName n).toList =
      target.name.toList ++ ['.', 't', 'm', 'p'] ++ (toString n).toList := by
  rw [draftName, String.toList_append, String.toList_append]
  rfl

/-- A draft never has the name of what it is a draft of. -/
theorem draftName_ne_name (target : Target) (n : Nat) : target.draftName n ≠ target.name := by
  intro h
  have hlength := congrArg (fun s : String => s.toList.length) h
  simp only [toList_draftName, List.length_append, List.length_cons, List.length_nil] at hlength
  omega

/-- **A draft's path ends in the draft's name.** -/
theorem getLast?_pieces_draft (h : ofPath? path = some target) (n : Nat) :
    (Text.pieces '/' (target.draft n)).getLast? = some (target.draftName n) := by
  have hslash : '/' ∉ (target.draftName n).toList := by
    rw [toList_draftName, List.mem_append, List.mem_append, not_or, not_or]
    refine ⟨⟨slash_notMem_name h, by decide⟩, ?_⟩
    intro hmem
    exact absurd (isDigit_of_mem_toString _ hmem) (by decide)
  change (Text.pieces '/' (join target.directory (target.draftName n))).getLast? = _
  unfold join
  split
  · next hend =>
    obtain ⟨s, hs⟩ := List.getLast?_eq_some_iff.mp hend
    refine Text.getLast?_pieces_append (s := s) hslash ?_
    rw [String.toList_append, hs, List.append_assoc]
    rfl
  · refine Text.getLast?_pieces_append (s := target.directory.toList) hslash ?_
    rw [String.toList_append, String.toList_append, List.append_assoc]
    rfl

/-- A draft lies in a directory under the draft's name. -/
theorem exists_eq_of_spotOfFile_draft (h : ofPath? path = some target) {t : Tree} {k : Location}
    {n : Nat} (hdraft : t.spotOfFile (target.draft n) = .ok k) :
    ∃ directory, k = directory ++ [target.draftName n] := by
  obtain ⟨directory, name, hspot, hchild, -⟩ := Tree.spotOfFile_eq_ok_iff.mp hdraft
  obtain ⟨-, hlast⟩ := Tree.getLast?_of_spot hspot
  rw [getLast?_pieces_draft h, Option.some_inj] at hlast
  exact ⟨directory, hlast ▸ Tree.eq_of_child hchild⟩

/-- A draft is never the file it is a draft for. -/
theorem ne_of_spotOfFile_draft (h : ofPath? path = some target) {t t' : Tree} {k l : Location}
    {n : Nat} (hdraft : t.spotOfFile (target.draft n) = .ok k)
    (hpath : t'.spotOfFile path = .ok l) : l ≠ k := by
  obtain ⟨directory, rfl⟩ := exists_eq_of_spotOfFile_draft h hdraft
  obtain ⟨directory', name, hspot, hchild, -⟩ := Tree.spotOfFile_eq_ok_iff.mp hpath
  obtain ⟨hname, hlast⟩ := Tree.getLast?_of_spot hspot
  obtain ⟨_, htarget⟩ := ofPath?_of_getLast? hname hlast
  obtain rfl := Option.some.inj (h.symm.trans htarget)
  rw [Tree.eq_of_child hchild]
  intro hsame
  have hnames := congrArg List.getLast? hsame
  rw [List.getLast?_concat, List.getLast?_concat, Option.some_inj] at hnames
  exact draftName_ne_name _ n hnames.symm

/-! ## The search -/

/-- The `n`-th draft is not there, and all drafts before it are. -/
structure IsFirstDraft (target : Target) (t : Tree) (n : Nat) : Prop where
  limit : n < draftLimit
  free : t.isThere (target.draft n) = false
  before : ∀ j < n, t.isThere (target.draft j) = true

/-- There is at most one first draft that is free. -/
theorem IsFirstDraft.unique {target : Target} {t : Tree} {n n' : Nat}
    (h : target.IsFirstDraft t n) (h' : target.IsFirstDraft t n') : n = n' := by
  rcases Nat.lt_trichotomy n n' with hlt | heq | hgt
  · exact absurd (h'.before n hlt) (h.free ▸ Bool.false_ne_true)
  · exact heq
  · exact absurd (h.before n' hgt) (h'.free ▸ Bool.false_ne_true)

/-- A path has one first draft at most. -/
theorem draft_unique {target target' : Target} {t : Tree} {n n' : Nat}
    (h : ofPath? path = some target) (hfirst : target.IsFirstDraft t n)
    (h' : ofPath? path = some target') (hfirst' : target'.IsFirstDraft t n') :
    target.draft n = target'.draft n' := by
  obtain rfl := Option.some.inj (h.symm.trans h')
  rw [hfirst.unique hfirst']

section Search

variable {σ : Type} [Store (StateM σ)] {s : σ} {t : Tree}
  (hthere : ∀ path, (Store.isThere path : StateM σ Bool).run s = (t.isThere path, s))
include hthere

/-- A search through a stretch of numbers changes nothing; it either finds the first free draft
of the stretch or all of them are taken. -/
theorem run_freeDraftFrom (target : Target) (n count : Nat) :
    ∃ found : Option String,
      (target.freeDraftFrom n count : StateM σ (Option String)).run s = (found, s) ∧
      match found with
      | none => ∀ k, n ≤ k → k < n + count → t.isThere (target.draft k) = true
      | some draft => ∃ k, n ≤ k ∧ k < n + count ∧ draft = target.draft k ∧
          t.isThere draft = false ∧ ∀ j, n ≤ j → j < k → t.isThere (target.draft j) = true := by
  induction count generalizing n with
  | zero => exact ⟨none, rfl, fun k hlow hhigh => absurd hlow (by omega)⟩
  | succ count ih =>
    have hstep : (target.freeDraftFrom n (count + 1) : StateM σ (Option String)).run s =
        if t.isThere (target.draft n) then
          (target.freeDraftFrom (n + 1) count : StateM σ (Option String)).run s
        else (some (target.draft n), s) := by
      change (if ((Store.isThere (target.draft n) : StateM σ Bool).run s).1 then
        (target.freeDraftFrom (n + 1) count : StateM σ (Option String))
        else pure (some (target.draft n))).run
          ((Store.isThere (target.draft n) : StateM σ Bool).run s).2 = _
      rw [hthere]
      exact apply_ite (fun rest : StateM σ (Option String) => rest.run s) _ _ _
    cases hfree : t.isThere (target.draft n) with
    | false =>
      refine ⟨some (target.draft n), ?_, n, Nat.le_refl n, by omega, rfl, hfree, ?_⟩
      · rw [hstep, hfree]
        rfl
      · intro j hlow hhigh
        omega
    | true =>
      obtain ⟨found, hrun, hfound⟩ := ih (n + 1)
      refine ⟨found, ?_, ?_⟩
      · rw [hstep, hfree, if_pos rfl]
        exact hrun
      · -- Those tried later are as the rest of the search says, and this one is there.
        have hearlier : ∀ j, n ≤ j → (n + 1 ≤ j → t.isThere (target.draft j) = true) →
            t.isThere (target.draft j) = true := by
          intro j hlow hlater
          rcases Nat.eq_or_lt_of_le hlow with rfl | hlt
          · exact hfree
          · exact hlater hlt
        cases found with
        | none =>
          intro k hlow hhigh
          exact hearlier k hlow fun hlt => hfound k hlt (by omega)
        | some draft =>
          obtain ⟨k, hlow, hhigh, hdraft, hfirst, hbefore⟩ := hfound
          refine ⟨k, by omega, by omega, hdraft, hfirst, ?_⟩
          intro j hj hjk
          exact hearlier j hj fun hlt => hbefore j hlt hjk

/-- **The search comes up with the first draft that is not there**, and with none only if all
that it tries are there. It changes nothing. -/
theorem run_freeDraft? (target : Target) :
    ∃ found : Option String, (target.freeDraft? : StateM σ (Option String)).run s = (found, s) ∧
      match found with
      | none => ∀ n, ¬target.IsFirstDraft t n
      | some draft => ∃ n, draft = target.draft n ∧ target.IsFirstDraft t n := by
  obtain ⟨found, hrun, hfound⟩ := run_freeDraftFrom hthere target 0 draftLimit
  refine ⟨found, hrun, ?_⟩
  cases found with
  | none =>
    intro n hfirst
    have hfree := hfirst.free
    rw [hfound n (Nat.zero_le n) (by have := hfirst.limit; omega)] at hfree
    contradiction
  | some draft =>
    obtain ⟨n, -, hlimit, rfl, hfree, hbefore⟩ := hfound
    rw [Nat.zero_add] at hlimit
    exact ⟨n, rfl, hlimit, hfree, fun j hj => hbefore j (Nat.zero_le j) hj⟩

end Search

end Target

end File

end ScriptFront
