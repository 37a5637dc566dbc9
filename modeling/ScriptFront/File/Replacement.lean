/-
Replacing a file as a whole.

The new text is first written to a draft: a file beside the target whose name
nothing else has. Only a finished draft is given the target's path. If that is
refused, its content is copied to the target instead and the draft is taken
away. Whatever stands at the target is taken away before, if it can be; whether
that works does not matter, since the next call tells.

Drafts are numbered from zero, and the first free number is taken. The numbers
are those of a 32-bit counter, so the search ends.
-/
import ScriptFront.File.Store
import ScriptFront.File.Target

set_option autoImplicit false

namespace ScriptFront.File

variable {m : Type → Type} [Monad m] [Store m]

/-- Why a file was not replaced. -/
inductive ReplaceFault where
  -- The path leads to nothing within a directory.
  | noDirectory
  | failed (cause : Fault)
deriving DecidableEq, Repr

/-! ## The draft -/

namespace Target

/-- How many drafts of one target there can be. -/
def draftLimit : Nat := 0x100000000

/-- The first path that leads to nothing among the drafts from the `n`-th on, of
which `count` are tried. -/
def freeDraftFrom (t : Target) (n : Nat) : Nat → m (Option String)
  | 0 => pure none
  | count + 1 => do
    if ← Store.isThere (t.draft n) then freeDraftFrom t (n + 1) count
    else pure (some (t.draft n))

/-- The path of the first draft that is not there, if there is one. -/
def freeDraft? (t : Target) : m (Option String) := t.freeDraftFrom 0 draftLimit

end Target

/-! ## The replacement -/

/-- Carries out an operation and goes on whether it fails or not. -/
def attempt (operation : ExceptT Fault m Unit) : ExceptT Fault m Unit :=
  ExceptT.mk do
    let _ ← operation.run
    pure (.ok ())

/-- Takes away what stands at a path, if something does and it can be done. -/
def clear (path : String) : ExceptT Fault m Unit := do
  if ← (Store.isThere path : m Bool) then attempt (Store.remove path)

/-- Puts a finished draft at a path. -/
def install (draft path : String) : ExceptT Fault m Unit := do
  clear path
  tryCatch (Store.rename draft path) fun _ => do
    Store.copy draft path
    Store.remove draft

/-- Writes a text to a draft and puts it at a path. -/
def replaceBy (draft path text : String) : ExceptT Fault m Unit := do
  Store.create draft
  Store.write draft text.toUTF8
  install draft path

/-- Puts a text at a path, as a whole and not piece by piece. -/
def replace (path text : String) : ExceptT ReplaceFault m Unit :=
  match Target.ofPath? path with
  | none => throw .noDirectory
  | some target => do
    match ← (target.freeDraft? : m (Option String)) with
    | none => throw (.failed .alreadyThere)
    | some draft => ExceptT.adapt .failed (replaceBy draft path text)

end ScriptFront.File
