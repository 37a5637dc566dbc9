/-
The file operations that the program asks for.

They stand as a class over a monad, so that the same program runs on the files
of the machine and on a tree that is a value. Each operation is one call: what
lies between two of them can be seen from outside.
-/
import ScriptFront.File.Fault

set_option autoImplicit false

namespace ScriptFront.File

/-- Files that can be read and changed by path. -/
class Store (m : Type → Type) where
  read : String → ExceptT ReadFault m ByteArray
  isThere : String → m Bool
  -- Makes an empty file, or empties the one that is there.
  create : String → ExceptT Fault m Unit
  -- Puts bytes into a file that has just been created.
  write : String → ByteArray → ExceptT Fault m Unit
  remove : String → ExceptT Fault m Unit
  -- Gives a file another path, in place of a file that is there.
  rename : String → String → ExceptT Fault m Unit
  -- Gives the content of the first file to the second, which is made if need be.
  copy : String → String → ExceptT Fault m Unit

end ScriptFront.File
