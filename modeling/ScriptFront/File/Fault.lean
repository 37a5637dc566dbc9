/-
Why a file operation fails.

A fault is a cause, not a text. Faults that the operating system numbers carry
the number in their message.
-/

set_option autoImplicit false

namespace ScriptFront.File

/-- The cause of a failed file operation. -/
inductive Fault where
  | notFound
  -- A path goes on after something that is no directory.
  | notDirectory
  -- A directory stands where a file is asked for.
  | isDirectory
  | nameTooLong
  | alreadyThere
  -- The place has a meaning that cannot be changed.
  | busy
  -- A path holds a null character.
  | nullInPath
  | notText
  -- Anything else, in words.
  | other (words : String)
deriving DecidableEq, Repr

namespace Fault

/-- A message with the number of the fault after it. -/
def numbered (words : String) (number : Nat) : String :=
  words ++ " (os error " ++ toString number ++ ")"

/-- The fault in words. -/
def message : Fault → String
  | .notFound => numbered "No such file or directory" 2
  | .notDirectory => numbered "Not a directory" 20
  | .isDirectory => numbered "Is a directory" 21
  | .nameTooLong => numbered "File name too long" 36
  | .alreadyThere => numbered "File exists" 17
  | .busy => numbered "Device or resource busy" 16
  | .nullInPath => "file name contained an unexpected NUL byte"
  | .notText => "stream did not contain valid UTF-8"
  | .other words => words

end Fault

/-- Why a file could not be read: at which step, and the cause. -/
inductive ReadFault where
  | opening (cause : Fault)
  -- The file was opened, but its content was not had.
  | reading (cause : Fault)
deriving DecidableEq, Repr

end ScriptFront.File
