/-
What can go wrong in the storage of compiled code.

A fault is a value with the numbers that caused it, and `StorageFault.message`
is the only place where it becomes text.
-/

set_option autoImplicit false

namespace ScriptFront

/-- Why storage could not be used. -/
inductive StorageFault where
  -- Memory for the requested number of slots was refused.
  | allocation (requested : Nat)
  -- There are not as many lines as instruction bytes.
  | lineTableMismatch (code lines : Nat)
deriving DecidableEq, Repr

/-- The fault in words. -/
def StorageFault.message : StorageFault → String
  | .allocation requested =>
    "allocation failed while growing to " ++ toString requested ++ " slots"
  | .lineTableMismatch code lines =>
    "line table mismatch: " ++ toString code ++ " instruction bytes but " ++ toString lines
      ++ " line entries"

end ScriptFront
