/-
The search for a free draft ends, and at the first one.

The search has no bound of its own (`Target.search`). It counts with a word of 32 bits, which
begins anew behind its last number, and stops only at a draft that is not there. So it ends
exactly as long as not every number has its draft. Drafts with different numbers have
different paths (`Target.draft_injective`), since a number can be read back from its digits;
hence if fewer drafts are there than there are numbers, some number has none
(`Target.card_taken_lt_iff`), and as the drafts before the first free one are all there, it is
reached after one more question than there are drafts at most (`IsFirstDraft.le_card`).

`Target.freeDraft?` stops behind the last number instead of beginning anew, which makes no
difference as long as there is a free draft: both ask for the drafts up to the first free one,
in their order. Creating that draft makes a new file, so nothing is lost by it.
-/
import Mathlib.Data.Finset.Card
import Mathlib.Data.Nat.Find
import Mathlib.Data.PFun
import ScriptFront.Proofs.Drafts
import ScriptFront.Proofs.StatefulRuns
import ScriptFront.World

set_option autoImplicit false

namespace ScriptFront.File

open File.Tree (DiffersAt isThere_of_spotOfFile write_eq_ok_iff)

namespace Target

/-! ## The search without a bound -/

/-- One question: the draft with the number of the counter if it is free, or the next number,
which is zero behind the last one. The paths asked for are kept in order. -/
def probe (target : Target) (t : Tree) :
    UInt32 × List String →. (String × List String) ⊕ (UInt32 × List String) :=
  fun s =>
    let draft := target.draft s.1.toNat
    .some (if t.isThere draft then .inr (s.1 + 1, s.2 ++ [draft]) else .inl (draft, s.2 ++ [draft]))

/-- The draft that is found and the paths asked for, if the search ends. -/
def search (target : Target) (t : Tree) : Part (String × List String) :=
  (target.probe t).fix (0, [])

/-- The paths of the drafts up to the `n`-th. -/
def draftsTo (target : Target) (n : Nat) : List String := (List.range (n + 1)).map target.draft

/-- The paths of drafts that are there. -/
def taken (target : Target) (t : Tree) : Finset String :=
  ((Finset.range draftLimit).image target.draft).filter fun path => t.isThere path = true

/-! ## Different numbers -/

/-- Different numbers give different drafts. -/
theorem draft_injective (target : Target) : Function.Injective target.draft := by
  intro n m h
  have hname : (target.draftName n).toList = (target.draftName m).toList := by
    have htexts := congrArg String.toList h
    simp only [draft, join] at htexts
    split at htexts
    · simp only [String.toList_append, List.append_cancel_left_eq] at htexts
      simpa [draftName] using htexts
    · simp only [String.toList_append, List.append_assoc, List.append_cancel_left_eq] at htexts
      simpa [draftName] using htexts
  rw [toList_draftName, toList_draftName, List.append_cancel_left_eq] at hname
  rw [← ofDigitChars_toString n, hname, ofDigitChars_toString]

section Taken

variable {target : Target} {t : Tree}

/-- The first numbers give as many drafts as there are numbers. -/
theorem card_image_draft (target : Target) (n : Nat) :
    ((Finset.range n).image target.draft).card = n := by
  rw [Finset.card_image_of_injective _ target.draft_injective, Finset.card_range]

/-- Fewer drafts are there than there are numbers exactly if some number has none. -/
theorem card_taken_lt_iff :
    (target.taken t).card < draftLimit ↔
      ∃ n < draftLimit, t.isThere (target.draft n) = false := by
  constructor
  · intro hcard
    by_contra hnone
    push Not at hnone
    have hall : target.taken t = (Finset.range draftLimit).image target.draft := by
      apply Finset.filter_true_of_mem
      intro path hpath
      obtain ⟨n, hn, rfl⟩ := Finset.mem_image.mp hpath
      exact Bool.not_eq_false _ ▸ hnone n (Finset.mem_range.mp hn)
    rw [hall, card_image_draft] at hcard
    exact Nat.lt_irrefl _ hcard
  · rintro ⟨n, hn, hfree⟩
    have hless : target.taken t ⊂ (Finset.range draftLimit).image target.draft := by
      apply Finset.filter_ssubset.mpr
      refine ⟨target.draft n, Finset.mem_image_of_mem _ (Finset.mem_range.mpr hn), ?_⟩
      rw [hfree]
      exact Bool.false_ne_true
    calc (target.taken t).card
      _ < ((Finset.range draftLimit).image target.draft).card := Finset.card_lt_card hless
      _ = draftLimit := card_image_draft target draftLimit

/-- With fewer drafts taken than there are numbers, one is free. -/
theorem exists_isFirstDraft (h : (target.taken t).card < draftLimit) :
    ∃ n, target.IsFirstDraft t n := by
  have hsome : ∃ n, n < draftLimit ∧ t.isThere (target.draft n) = false :=
    card_taken_lt_iff.mp h
  refine ⟨Nat.find hsome, (Nat.find_spec hsome).1, (Nat.find_spec hsome).2, ?_⟩
  intro j hj
  have hlimit : j < draftLimit := Nat.lt_trans hj (Nat.find_spec hsome).1
  by_contra hfree
  exact Nat.find_min hsome hj ⟨hlimit, Bool.not_eq_true _ ▸ hfree⟩

/-- The drafts before the first free one are all there. -/
theorem IsFirstDraft.le_card {n : Nat} (h : target.IsFirstDraft t n) :
    n ≤ (target.taken t).card := by
  have hbefore : (Finset.range n).image target.draft ⊆ target.taken t := by
    intro path hpath
    obtain ⟨j, hj, rfl⟩ := Finset.mem_image.mp hpath
    rw [Finset.mem_range] at hj
    refine Finset.mem_filter.mpr ⟨Finset.mem_image_of_mem _ ?_, h.before j hj⟩
    exact Finset.mem_range.mpr (Nat.lt_trans hj h.limit)
  calc n
    _ = ((Finset.range n).image target.draft).card := (card_image_draft target n).symm
    _ ≤ (target.taken t).card := Finset.card_le_card hbefore

end Taken

/-! ## What is asked for -/

/-- Asked for a path, the store answers for the tree in view and keeps it in view, whatever it
notes. -/
structure Answers {σ : Type} [Store (StateM σ)] (view : σ → Tree) (note : String → σ → σ) :
    Prop where
  run : ∀ path s, (Store.isThere path : StateM σ Bool).run s = ((view s).isThere path, note path s)
  kept : ∀ path s, view (note path s) = view s

/-- A world notes nothing. -/
theorem answers_world : Answers World.tree fun _ w => w := ⟨fun _ _ => rfl, fun _ _ => rfl⟩

section Asked

variable {target : Target} {t : Tree} {n k : Nat}

/-- From any number on, the search without a bound asks up to the first free draft. -/
theorem fix_probe (hlimit : n + k < draftLimit)
    (hbefore : ∀ j, n ≤ j → j < n + k → t.isThere (target.draft j) = true)
    (hfree : t.isThere (target.draft (n + k)) = false) (asked : List String) :
    (target.draft (n + k), asked ++ (List.range' n (k + 1)).map target.draft) ∈
      (target.probe t).fix (UInt32.ofNat n, asked) := by
  induction k generalizing n asked with
  | zero =>
    have hcounter : (UInt32.ofNat n).toNat = n := UInt32.toNat_ofNat_of_lt' hlimit
    apply PFun.fix_stop
    simp only [probe, hcounter]
    rw [Nat.add_zero] at hfree
    simp [hfree]
  | succ k ih =>
    have hcounter : (UInt32.ofNat n).toNat = n := UInt32.toNat_ofNat_of_lt' (by
      show n < draftLimit
      omega)
    have hthere := hbefore n (Nat.le_refl n) (by omega)
    have hnext : Sum.inr (UInt32.ofNat (n + 1), asked ++ [target.draft n]) ∈
        target.probe t (UInt32.ofNat n, asked) := by
      simp [probe, hcounter, hthere, UInt32.ofNat_add]
    rw [PFun.fix_fwd_eq hnext]
    have hrest := ih (n := n + 1) (by omega) (fun j hlow hhigh => hbefore j (by omega) (by omega))
      (by rwa [Nat.add_right_comm]) (asked ++ [target.draft n])
    rw [List.range'_succ, List.map_cons]
    simpa [Nat.add_right_comm, Nat.add_assoc] using hrest

variable {σ : Type} [Store (StateM σ)] {view : σ → Tree} {note : String → σ → σ}
  (hanswers : Answers view note) {s : σ}
include hanswers

/-- The search asks about one draft and goes on only if it is taken. -/
theorem run_freeDraftFrom_succ (target : Target) (n count : Nat) (hs : view s = t) :
    (target.freeDraftFrom n (count + 1) : StateM σ (Option String)).run s =
      if t.isThere (target.draft n) then
        (target.freeDraftFrom (n + 1) count : StateM σ (Option String)).run (note (target.draft n) s)
      else (some (target.draft n), note (target.draft n) s) := by
  subst hs
  have hbind := run_bind_of_eq (hanswers.run (target.draft n) s)
    (g := fun there => if there then target.freeDraftFrom (n + 1) count
      else pure (some (target.draft n)))
  refine Eq.trans hbind ?_
  split
  · rfl
  · rfl

/-- From any number on, the search with a bound asks for the same drafts. -/
theorem run_freeDraftFrom_eq {count : Nat} (hcount : k < count)
    (hbefore : ∀ j, n ≤ j → j < n + k → t.isThere (target.draft j) = true)
    (hfree : t.isThere (target.draft (n + k)) = false) (hs : view s = t) :
    (target.freeDraftFrom n count : StateM σ (Option String)).run s =
      (some (target.draft (n + k)),
        ((List.range' n (k + 1)).map target.draft).foldl (fun s path => note path s) s) := by
  induction k generalizing n count s with
  | zero =>
    obtain ⟨count, rfl⟩ := Nat.exists_eq_add_of_lt hcount
    rw [Nat.add_zero] at hfree
    rw [Nat.zero_add, run_freeDraftFrom_succ hanswers _ _ _ hs, hfree]
    rfl
  | succ k ih =>
    obtain ⟨count, rfl⟩ := Nat.exists_eq_add_of_lt (Nat.zero_lt_of_lt hcount)
    rw [Nat.zero_add, run_freeDraftFrom_succ hanswers _ _ _ hs, hbefore n (Nat.le_refl n) (by omega),
      if_pos rfl, ih (by omega) (fun j hlow hhigh => hbefore j (by omega) (by omega))
      (by rwa [Nat.add_right_comm]) ((hanswers.kept _ _).trans hs), List.range'_succ,
      Nat.add_right_comm]
    rfl

end Asked

section First

variable {target : Target} {t : Tree} {n : Nat} (h : target.IsFirstDraft t n)
include h

/-- The search without a bound ends at the first free draft, having asked about the drafts up to
it. -/
theorem search_eq : target.search t = .some (target.draft n, target.draftsTo n) := by
  rw [Part.eq_some_iff, search, draftsTo, List.range_eq_range']
  have hfix := fix_probe (n := 0) (k := n) (by rw [Nat.zero_add]; exact h.limit)
    (fun j _ hj => h.before j (by omega)) (by rw [Nat.zero_add]; exact h.free) []
  rwa [Nat.zero_add, List.nil_append] at hfix

/-- The search with its counter ends at the first free draft, having asked about the same
drafts. -/
theorem run_freeDraft?_eq {σ : Type} [Store (StateM σ)] {view : σ → Tree} {note : String → σ → σ}
    (hanswers : Answers view note) {s : σ} (hs : view s = t) :
    (target.freeDraft? : StateM σ (Option String)).run s =
      (some (target.draft n), (target.draftsTo n).foldl (fun s path => note path s) s) := by
  have hrun := run_freeDraftFrom_eq hanswers (n := 0) (k := n) h.limit
    (fun j _ hj => h.before j (by omega)) (by rw [Nat.zero_add]; exact h.free) hs
  rw [Nat.zero_add] at hrun
  rw [freeDraft?, hrun, draftsTo, List.range_eq_range']

/-- Creating the first free draft makes a file where there was nothing. -/
theorem create_draft {t' : Tree} (hcreate : t.create (target.draft n) = .ok t') :
    ∃ k, t.spotOfFile (target.draft n) = .ok k ∧ t.find? k = none ∧
      DiffersAt t t' k (some (.file .empty)) := by
  obtain ⟨k, hspot, rfl⟩ := write_eq_ok_iff.mp hcreate
  have hnone : t.find? k = none := by
    have hfree := h.free
    rw [isThere_of_spotOfFile hspot] at hfree
    exact Option.isSome_eq_false_iff.mp hfree |> Option.isNone_iff_eq_none.mp
  have hne : k ≠ [] := by
    rintro rfl
    contradiction
  exact ⟨k, hspot, hnone, .put hne t _⟩

end First

/-- If every number has its draft, the search goes round for ever. -/
theorem card_taken_lt_of_dom {target : Target} {t : Tree} (h : (target.search t).Dom) :
    (target.taken t).card < draftLimit := by
  obtain ⟨found, hfound⟩ := Part.dom_iff_mem.mp h
  apply card_taken_lt_iff.mpr
  -- The induction is on the questions that are left until the end.
  refine PFun.fixInduction hfound ?_
  intro s _ ih
  by_cases hthere : t.isThere (target.draft s.1.toNat) = true
  · exact ih (s.1 + 1, s.2 ++ [target.draft s.1.toNat]) (by simp [probe, hthere])
  · exact ⟨s.1.toNat, s.1.toNat_lt, Bool.not_eq_true _ ▸ hthere⟩

/-- **The search for a free draft ends at the first one.** In whatever tree, it ends exactly
if fewer drafts are there than there are numbers, and then comes back with the draft of the
least number that is not there. It has asked for the drafts up to this one and for no other,
which is one more than there are drafts at most. The search with a bound does the same in any
store that answers for the tree, whatever it notes when it is asked. If the draft is then
created in this tree, a file is made where there was nothing, and everything else stays. -/
theorem search_ends (target : Target) (t : Tree) :
    ((target.search t).Dom ↔ (target.taken t).card < draftLimit) ∧
    ((target.taken t).card < draftLimit → ∃ n, target.IsFirstDraft t n ∧
      target.search t = .some (target.draft n, target.draftsTo n) ∧
      (target.draftsTo n).length ≤ (target.taken t).card + 1 ∧
      (∀ (σ : Type) [Store (StateM σ)] (view : σ → Tree) (note : String → σ → σ),
        Answers view note → ∀ s, view s = t →
          (target.freeDraft? : StateM σ (Option String)).run s =
            (some (target.draft n), (target.draftsTo n).foldl (fun s path => note path s) s)) ∧
      ∀ t', t.create (target.draft n) = .ok t' →
        ∃ k, t.spotOfFile (target.draft n) = .ok k ∧ t.find? k = none ∧
          DiffersAt t t' k (some (.file .empty))) := by
  constructor
  · constructor
    · exact card_taken_lt_of_dom
    · intro hcard
      obtain ⟨n, hfirst⟩ := exists_isFirstDraft hcard
      rw [search_eq hfirst]
      exact trivial
  · intro hcard
    obtain ⟨n, hfirst⟩ := exists_isFirstDraft hcard
    refine ⟨n, hfirst, search_eq hfirst, ?_, ?_, ?_⟩
    · have hle := hfirst.le_card
      rw [draftsTo, List.length_map, List.length_range]
      omega
    · intro σ _ view note hanswers s hs
      exact run_freeDraft?_eq hfirst hanswers hs
    · intro t' hcreate
      exact create_draft hfirst hcreate

/-- With the drafts zero, one and three there, the search asks three times and finds two. -/
theorem search_ends_gap :
    let target : Target := { directory := ".", name := "o" }
    let t := (((Tree.bare ["w"]).withFile ["w", "o.tmp0"] .empty).withFile ["w", "o.tmp1"]
      .empty).withFile ["w", "o.tmp3"] .empty
    (target.taken t).card < draftLimit ∧
      target.search t = .some ("./o.tmp2", ["./o.tmp0", "./o.tmp1", "./o.tmp2"]) ∧
      3 ≤ (target.taken t).card + 1 ∧
      (target.freeDraft? : StateM World (Option String)).run { tree := t, input := .empty } =
        (some "./o.tmp2", { tree := t, input := .empty }) := by
  intro target t
  have hfree : t.isThere (target.draft 2) = false := by decide +kernel
  have hcard : (target.taken t).card < draftLimit := card_taken_lt_iff.mpr ⟨2, by decide, hfree⟩
  have hbefore : ∀ j < 2, t.isThere (target.draft j) = true := by decide +kernel
  obtain ⟨n, hfirst, hsearch, hbound, hrun, -⟩ := (search_ends target t).2 hcard
  obtain rfl : n = 2 := hfirst.unique ⟨by decide, hfree, hbefore⟩
  have hworld := hrun World World.tree (fun _ w => w) answers_world { tree := t, input := .empty } rfl
  have hdraft : target.draft 2 = "./o.tmp2" := by decide +kernel
  have hdrafts : target.draftsTo 2 = ["./o.tmp0", "./o.tmp1", "./o.tmp2"] := by decide +kernel
  rw [hdraft, hdrafts] at hsearch hworld
  rw [hdrafts] at hbound
  exact ⟨hcard, hsearch, hbound, hworld⟩

end Target

end ScriptFront.File
