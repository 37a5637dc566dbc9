/-
Where a path puts a file, and what the operations on a tree do there.

Every operation that changes a tree first follows a path to a spot. Which spot that is
depends on nothing but the directories of the tree (`SameWays`), so writing, moving and
taking away files leaves all spots where they are. With the spot in hand an operation is
told by what lies there: `Tree.spotOfFile` is the one question all of them ask, and each
has its lemma in these terms (`write_eq_ok_iff` to `copy_eq_ok_iff`).

What an operation does not name it does not touch: `DiffersAt` says that a tree is another
one but for what lies at one location.
-/
import ScriptFront.File.Tree

set_option autoImplicit false

namespace ScriptFront.File

/-- Two steps succeed together exactly if the first does and the second goes on from there. -/
theorem bind_eq_ok_iff {ε α β : Type} {x : Except ε α} {f : α → Except ε β} {b : β} :
    (x >>= f) = .ok b ↔ ∃ a, x = .ok a ∧ f a = .ok b := by
  cases x with
  | error e =>
    constructor
    · intro h
      contradiction
    · rintro ⟨a, ha, -⟩
      contradiction
  | ok a =>
    constructor
    · intro h
      exact ⟨a, rfl, h⟩
    · rintro ⟨a', ha, h⟩
      obtain rfl := Except.ok.inj ha
      exact h

namespace Tree

variable {t t' : Tree} {l : Location} {path : String}

/-! ## Pieces of a path -/

/-- A piece of a path that names an entry of a directory. -/
def IsName (piece : String) : Prop := piece ≠ "" ∧ piece ≠ "." ∧ piece ≠ ".."

/-- There is a directory at a location exactly if that is what is found there. -/
theorem hasDirectory_eq_true_iff : t.hasDirectory l = true ↔ t.find? l = some .directory := by
  unfold hasDirectory
  split
  · next h => exact ⟨fun _ => h, fun _ => rfl⟩
  · next h => exact ⟨nofun, fun h' => absurd h' h⟩

/-- A name leads into a directory of that name. -/
theorem enter_eq_ok_iff {piece : String} (h : IsName piece) {directory : Location} :
    t.enter directory piece = .ok l ↔
      child directory piece = .ok l ∧ t.hasDirectory l = true := by
  obtain ⟨hempty, hdot, hup⟩ := h
  unfold enter
  split
  · contradiction
  · contradiction
  · contradiction
  · constructor
    · intro hfound
      obtain ⟨k, hchild, hk⟩ := bind_eq_ok_iff.mp hfound
      split at hk
      · next hdirectory =>
        obtain rfl := Except.ok.inj hk
        exact ⟨hchild, hasDirectory_eq_true_iff.mpr hdirectory⟩
      · contradiction
      · contradiction
    · rintro ⟨hchild, hdirectory⟩
      refine bind_eq_ok_iff.mpr ⟨l, hchild, ?_⟩
      rw [hasDirectory_eq_true_iff.mp hdirectory]

/-- A piece that is no name leads on whatever there is in the tree. -/
theorem enter_of_not_isName {piece : String} (h : ¬IsName piece) (t t' : Tree)
    (directory : Location) : t.enter directory piece = t'.enter directory piece := by
  unfold enter
  split
  · rfl
  · rfl
  · rfl
  · next hempty hdot hup => exact absurd ⟨hempty, hdot, hup⟩ h

/-! ## Trees with the same directories -/

/-- Paths lead the same ways in both trees. -/
structure SameWays (t t' : Tree) : Prop where
  work : t'.work = t.work
  directories : ∀ l, t'.hasDirectory l = t.hasDirectory l

/-- The root is a directory, so a location without one is not the root. -/
theorem ne_nil_of_hasDirectory (h : t.hasDirectory l = false) : l ≠ [] := by
  rintro rfl
  contradiction

/-- A file is no directory. -/
theorem hasDirectory_of_file {c : ByteArray} (h : t.find? l = some (.file c)) :
    t.hasDirectory l = false := by
  rw [hasDirectory, h]

theorem hasDirectory_of_none (h : t.find? l = none) : t.hasDirectory l = false := by
  rw [hasDirectory, h]

namespace SameWays

theorem refl (t : Tree) : SameWays t t := ⟨rfl, fun _ => rfl⟩

theorem symm (h : SameWays t t') : SameWays t' t := ⟨h.work.symm, fun l => (h.directories l).symm⟩

theorem trans {t'' : Tree} (h : SameWays t t') (h' : SameWays t' t'') : SameWays t t'' :=
  ⟨h'.work.trans h.work, fun l => (h'.directories l).trans (h.directories l)⟩

/-- A step from a directory by a name leads the same way in trees with the same directories. -/
theorem enter (h : SameWays t t') {directory l : Location} {piece : String}
    (henter : t.enter directory piece = .ok l) : t'.enter directory piece = .ok l := by
  by_cases hname : IsName piece
  · rw [enter_eq_ok_iff hname] at henter ⊢
    rwa [h.directories]
  · rwa [enter_of_not_isName hname t' t]

/-- So do any number of them. -/
theorem walk (h : SameWays t t') {start l : Location} {pieces : List String}
    (hwalk : t.walk start pieces = .ok l) : t'.walk start pieces = .ok l := by
  unfold Tree.walk at hwalk ⊢
  induction pieces generalizing start with
  | nil => exact hwalk
  | cons piece pieces ih =>
    rw [List.foldlM_cons] at hwalk ⊢
    obtain ⟨next, henter, hrest⟩ := bind_eq_ok_iff.mp hwalk
    exact bind_eq_ok_iff.mpr ⟨next, h.enter henter, ih hrest⟩

/-- A path starts at the same place in trees with the same directories. -/
theorem begin (h : SameWays t t') (path : String) : t'.begin path = t.begin path := by
  unfold Tree.begin
  rw [h.work]

/-- A file is written where there is no directory, so no way is changed. -/
theorem put (h : t.hasDirectory l = false) (c : ByteArray) : SameWays t (t.put l (.file c)) := by
  refine ⟨rfl, ?_⟩
  intro k
  by_cases hk : k = l
  · rw [hk, h]
    exact hasDirectory_of_file (find?_put_self t (ne_nil_of_hasDirectory h) _)
  · rw [hasDirectory, hasDirectory, find?_put_of_ne t hk]

/-- What is no directory can be taken away without a change to the ways. -/
theorem erase (h : t.hasDirectory l = false) : SameWays t (t.erase l) := by
  refine ⟨rfl, ?_⟩
  intro k
  by_cases hk : k = l
  · rw [hk, h]
    exact hasDirectory_of_none (find?_erase_self t (ne_nil_of_hasDirectory h))
  · rw [hasDirectory, hasDirectory, find?_erase_of_ne t hk]

end SameWays

/-! ## Spots -/

/-- What is left of a path after its start are its pieces between slashes. -/
theorem pieces_of_begin {start : Location} {pieces : List String}
    (h : t.begin path = .ok (start, pieces)) : pieces = Text.pieces '/' path := by
  unfold begin at h
  split at h
  · contradiction
  · split at h
    · contradiction
    · split at h
      · contradiction
      · exact (congrArg Prod.snd (Except.ok.inj h)).symm

/-- A name that leads to a location leads below its directory. -/
theorem eq_of_child {directory : Location} {name : String} (h : child directory name = .ok l) :
    l = directory ++ [name] := by
  unfold child at h
  split at h
  · contradiction
  · exact (Except.ok.inj h).symm

/-- A path that no slash ends leads to a name if its last piece is one and the pieces before
lead to a directory. -/
theorem spot_eq_open_iff {directory : Location} {name : String} :
    t.spot path = .ok (.name directory name false) ↔
      ∃ start before, t.begin path = .ok (start, before ++ [name]) ∧ IsName name ∧
        t.walk start before = .ok directory := by
  unfold spot
  constructor
  · intro h
    obtain ⟨⟨start, pieces⟩, hbegin, hspot⟩ := bind_eq_ok_iff.mp h
    dsimp only at hspot
    split at hspot
    · exact absurd (Except.ok.inj hspot) nofun
    · next last before hpieces =>
      obtain ⟨d, hwalk, hlast⟩ := bind_eq_ok_iff.mp hspot
      split at hlast
      · exact absurd (Except.ok.inj hlast) nofun
      · next hnofixed =>
        injection hlast with hname
        injection hname with hd hname hopen
        subst hd hname
        have hclosed : pieces.getLast? ≠ some "" := of_decide_eq_false hopen
        -- No slash ends the path, so nothing is dropped from its pieces.
        cases hrev : pieces.reverse with
        | nil =>
          rw [hrev] at hpieces
          contradiction
        | cons final rest =>
          have hfinal : final ≠ "" := by
            rintro rfl
            apply hclosed
            rw [← List.head?_reverse, hrev, List.head?_cons]
          rw [hrev, List.dropWhile_cons_of_neg (by simpa using hfinal)] at hpieces
          obtain ⟨rfl, rfl⟩ := List.cons.inj hpieces
          have hsplit : pieces = rest.reverse ++ [final] := by
            rw [← List.reverse_cons, ← hrev, List.reverse_reverse]
          rw [not_or] at hnofixed
          exact ⟨start, rest.reverse, hsplit ▸ hbegin, ⟨hfinal, hnofixed⟩, hwalk⟩
  · rintro ⟨start, before, hbegin, ⟨hempty, hdot, hup⟩, hwalk⟩
    refine bind_eq_ok_iff.mpr ⟨_, hbegin, ?_⟩
    dsimp only
    rw [List.reverse_append, List.reverse_singleton, List.singleton_append,
      List.dropWhile_cons_of_neg (by simpa using hempty)]
    dsimp only
    rw [List.reverse_reverse]
    refine bind_eq_ok_iff.mpr ⟨directory, hwalk, ?_⟩
    rw [if_neg (not_or.mpr ⟨hdot, hup⟩)]
    have hopen : ¬(before ++ [name]).getLast? = some "" := by
      rw [List.getLast?_concat, Option.some_inj]
      exact hempty
    rw [decide_eq_false hopen]

/-- The name that such a path leads to is its last piece. -/
theorem getLast?_of_spot {directory : Location} {name : String}
    (h : t.spot path = .ok (.name directory name false)) :
    IsName name ∧ (Text.pieces '/' path).getLast? = some name := by
  obtain ⟨start, before, hbegin, hname, -⟩ := spot_eq_open_iff.mp h
  refine ⟨hname, ?_⟩
  rw [← pieces_of_begin hbegin, List.getLast?_concat]

/-- A path leads to the same name where the ways are the same. -/
theorem SameWays.spot (h : SameWays t t') {directory : Location} {name : String}
    (hspot : t.spot path = .ok (.name directory name false)) :
    t'.spot path = .ok (.name directory name false) := by
  obtain ⟨start, before, hbegin, hname, hwalk⟩ := spot_eq_open_iff.mp hspot
  exact spot_eq_open_iff.mpr ⟨start, before, (h.begin path).trans hbegin, hname, h.walk hwalk⟩

/-- **A path has a spot for a file** exactly if it ends in a name, without a slash behind it,
under which there is no directory. -/
theorem spotOfFile_eq_ok_iff :
    t.spotOfFile path = .ok l ↔
      ∃ directory name, t.spot path = .ok (.name directory name false) ∧
        child directory name = .ok l ∧ t.hasDirectory l = false := by
  unfold spotOfFile
  constructor
  · intro h
    obtain ⟨s, hspot, hfree⟩ := bind_eq_ok_iff.mp h
    split at hfree
    · contradiction
    · contradiction
    · next directory name =>
      obtain ⟨k, hchild, hk⟩ := bind_eq_ok_iff.mp hfree
      split at hk
      · contradiction
      · next hnone =>
        obtain rfl := Except.ok.inj hk
        exact ⟨directory, name, hspot, hchild, Bool.not_eq_true _ ▸ hnone⟩
  · rintro ⟨directory, name, hspot, hchild, hfree⟩
    refine bind_eq_ok_iff.mpr ⟨_, hspot, bind_eq_ok_iff.mpr ⟨l, hchild, ?_⟩⟩
    rw [hfree]
    rfl

/-- A file has no other place where the ways are the same. -/
theorem SameWays.spotOfFile (h : SameWays t t') (hspot : t.spotOfFile path = .ok l) :
    t'.spotOfFile path = .ok l := by
  obtain ⟨directory, name, hname, hchild, hfree⟩ := spotOfFile_eq_ok_iff.mp hspot
  exact spotOfFile_eq_ok_iff.mpr
    ⟨directory, name, h.spot hname, hchild, (h.directories l).trans hfree⟩

/-- What is found by a path that leads to a name is what lies there. -/
theorem locate_of_spot {directory : Location} {name : String}
    (hspot : t.spot path = .ok (.name directory name false))
    (hchild : child directory name = .ok l) :
    t.locate path = match t.find? l with
      | some e => .ok (l, e)
      | none => .error .notFound := by
  obtain ⟨start, before, hbegin, ⟨hempty, hdot, hup⟩, hwalk⟩ := spot_eq_open_iff.mp hspot
  unfold locate
  rw [hbegin]
  dsimp only [bind, Except.bind]
  rw [List.reverse_append, List.reverse_singleton, List.singleton_append]
  dsimp only
  rw [List.reverse_reverse, hwalk]
  dsimp only
  split
  · contradiction
  · contradiction
  · contradiction
  · generalize child directory name = found at hchild ⊢
    subst hchild
    rfl

/-- What a path with a spot for a file leads to is what lies at the spot. -/
theorem locate_of_spotOfFile (h : t.spotOfFile path = .ok l) :
    t.locate path = match t.find? l with
      | some e => .ok (l, e)
      | none => .error .notFound := by
  obtain ⟨directory, name, hspot, hchild, -⟩ := spotOfFile_eq_ok_iff.mp h
  exact locate_of_spot hspot hchild

/-- A path with a spot for a file leads somewhere exactly if something lies at the spot. -/
theorem isThere_of_spotOfFile (h : t.spotOfFile path = .ok l) :
    t.isThere path = (t.find? l).isSome := by
  rw [isThere, locate_of_spotOfFile h]
  cases t.find? l <;> rfl

/-! ## What the operations do at a spot -/

/-- **A file can be written** exactly where there is a spot for it, and then it lies there. -/
theorem write_eq_ok_iff {c : ByteArray} :
    t.write path c = .ok t' ↔ ∃ l, t.spotOfFile path = .ok l ∧ t' = t.put l (.file c) := by
  unfold write
  constructor
  · intro h
    obtain ⟨l, hspot, hput⟩ := bind_eq_ok_iff.mp h
    exact ⟨l, hspot, (Except.ok.inj hput).symm⟩
  · rintro ⟨l, hspot, rfl⟩
    exact bind_eq_ok_iff.mpr ⟨l, hspot, rfl⟩

/-- A path names the file that lies where it would put one. -/
theorem named_eq_ok_iff {c : ByteArray} :
    t.named path = .ok (l, c) ↔ t.spotOfFile path = .ok l ∧ t.find? l = some (.file c) := by
  rw [spotOfFile_eq_ok_iff]
  unfold named
  constructor
  · intro h
    obtain ⟨s, hspot, hname⟩ := bind_eq_ok_iff.mp h
    split at hname
    · contradiction
    · next directory name closed =>
      obtain ⟨k, hchild, hk⟩ := bind_eq_ok_iff.mp hname
      split at hk
      · contradiction
      · contradiction
      · next content hfile =>
        split at hk
        · contradiction
        · next hopen =>
          obtain ⟨rfl, rfl⟩ := Prod.mk.inj (Except.ok.inj hk)
          rw [Bool.not_eq_true] at hopen
          subst hopen
          exact ⟨⟨directory, name, hspot, hchild, hasDirectory_of_file hfile⟩, hfile⟩
  · rintro ⟨⟨directory, name, hspot, hchild, -⟩, hfile⟩
    refine bind_eq_ok_iff.mpr ⟨_, hspot, bind_eq_ok_iff.mpr ⟨l, hchild, ?_⟩⟩
    rw [hfile]
    rfl

/-- **A file can be removed** exactly where there is one, and then nothing lies there. -/
theorem remove_eq_ok_iff :
    t.remove path = .ok t' ↔
      ∃ l c, t.spotOfFile path = .ok l ∧ t.find? l = some (.file c) ∧ t' = t.erase l := by
  unfold remove
  constructor
  · intro h
    obtain ⟨⟨l, c⟩, hnamed, herase⟩ := bind_eq_ok_iff.mp h
    obtain ⟨hspot, hfile⟩ := named_eq_ok_iff.mp hnamed
    exact ⟨l, c, hspot, hfile, (Except.ok.inj herase).symm⟩
  · rintro ⟨l, c, hspot, hfile, rfl⟩
    exact bind_eq_ok_iff.mpr ⟨(l, c), named_eq_ok_iff.mpr ⟨hspot, hfile⟩, rfl⟩

/-- A file that is there can be taken away by a path that puts one there. -/
theorem remove_of_isThere (h : t.spotOfFile path = .ok l) (hthere : t.isThere path = true) :
    t.remove path = .ok (t.erase l) := by
  obtain ⟨-, -, -, -, hfree⟩ := spotOfFile_eq_ok_iff.mp h
  rw [isThere_of_spotOfFile h, Option.isSome_iff_exists] at hthere
  obtain ⟨e, he⟩ := hthere
  cases e with
  | directory =>
    rw [hasDirectory_eq_true_iff.mpr he] at hfree
    contradiction
  | file c => exact remove_eq_ok_iff.mpr ⟨l, c, h, he, rfl⟩

/-- **A file can be renamed** exactly if it is there and its new path has a spot for it, and
what lay at the spot is replaced. -/
theorem rename_eq_ok_iff {source : String} :
    t.rename source path = .ok t' ↔
      ∃ k c l, t.spotOfFile source = .ok k ∧ t.find? k = some (.file c) ∧
        t.spotOfFile path = .ok l ∧ t' = (t.erase k).put l (.file c) := by
  unfold rename
  constructor
  · intro h
    obtain ⟨⟨k, c⟩, hnamed, hmove⟩ := bind_eq_ok_iff.mp h
    obtain ⟨hsource, hfile⟩ := named_eq_ok_iff.mp hnamed
    obtain ⟨s, hspot, hname⟩ := bind_eq_ok_iff.mp hmove
    split at hname
    · contradiction
    · next directory name closed =>
      obtain ⟨l, hchild, hl⟩ := bind_eq_ok_iff.mp hname
      split at hl
      · contradiction
      · next hopen =>
        split at hl
        · contradiction
        · next hfree =>
          rw [Bool.not_eq_true] at hopen hfree
          subst hopen
          exact ⟨k, c, l, hsource, hfile,
            spotOfFile_eq_ok_iff.mpr ⟨directory, name, hspot, hchild, hfree⟩,
            (Except.ok.inj hl).symm⟩
  · rintro ⟨k, c, l, hsource, hfile, hpath, rfl⟩
    obtain ⟨directory, name, hspot, hchild, hfree⟩ := spotOfFile_eq_ok_iff.mp hpath
    refine bind_eq_ok_iff.mpr ⟨(k, c), named_eq_ok_iff.mpr ⟨hsource, hfile⟩, ?_⟩
    refine bind_eq_ok_iff.mpr ⟨_, hspot, bind_eq_ok_iff.mpr ⟨l, hchild, ?_⟩⟩
    rw [hfree]
    rfl

/-- A file is copied from wherever its path leads to where the other path puts one. -/
theorem copy_eq_ok_iff {source : String} :
    t.copy source path = .ok t' ↔
      ∃ k c l, t.locate source = .ok (k, .file c) ∧ t.spotOfFile path = .ok l ∧
        t' = t.put l (.file c) := by
  unfold copy
  constructor
  · intro h
    obtain ⟨⟨k, e⟩, hlocate, hwrite⟩ := bind_eq_ok_iff.mp h
    cases e with
    | directory => contradiction
    | file c =>
      obtain ⟨l, hspot, rfl⟩ := write_eq_ok_iff.mp hwrite
      exact ⟨k, c, l, hlocate, hspot, rfl⟩
  · rintro ⟨k, c, l, hlocate, hspot, rfl⟩
    exact bind_eq_ok_iff.mpr ⟨(k, .file c), hlocate, write_eq_ok_iff.mpr ⟨l, hspot, rfl⟩⟩

/-! ## Trees that differ at one location -/

/-- The second tree has `e` at a location and is the first one everywhere else. -/
structure DiffersAt (t t' : Tree) (l : Location) (e : Option Entry) : Prop where
  work : t'.work = t.work
  here : t'.find? l = e
  elsewhere : ∀ k, k ≠ l → t'.find? k = t.find? k

namespace DiffersAt

variable {e e' : Option Entry}

/-- A tree differs from itself with an entry put in where the entry is. -/
theorem put (h : l ≠ []) (t : Tree) (e : Entry) : DiffersAt t (t.put l e) l (some e) :=
  ⟨rfl, find?_put_self t h e, fun _ hk => find?_put_of_ne t hk e⟩

/-- A tree differs from itself with an entry taken away where that was. -/
theorem erase (h : l ≠ []) (t : Tree) : DiffersAt t (t.erase l) l none :=
  ⟨rfl, find?_erase_self t h, fun _ hk => find?_erase_of_ne t hk⟩

/-- Of several changes at one location the last one counts. -/
theorem trans {t'' : Tree} (h : DiffersAt t t' l e) (h' : DiffersAt t' t'' l e') :
    DiffersAt t t'' l e' :=
  ⟨h'.work.trans h.work, h'.here, fun k hk => (h'.elsewhere k hk).trans (h.elsewhere k hk)⟩

/-- Where a file replaces nothing or a file, all ways stay. -/
theorem sameWays (h : DiffersAt t t' l e) (hfree : t.hasDirectory l = false)
    (he : e ≠ some .directory) : SameWays t t' := by
  refine ⟨h.work, ?_⟩
  intro k
  by_cases hk : k = l
  · subst hk
    rw [hfree, ← Bool.not_eq_true, hasDirectory_eq_true_iff, h.here]
    exact he
  · rw [hasDirectory, hasDirectory, h.elsewhere k hk]

end DiffersAt

end Tree

end ScriptFront.File
