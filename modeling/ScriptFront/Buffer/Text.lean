/-
Buffers as text.

There are two layouts: everything on one line, and every field and element on a
line of its own. In the second an empty sequence stays closed up and every line
inside a bracket ends in a comma.
-/
import ScriptFront.Buffer.Basic
import ScriptFront.Text.Field

set_option autoImplicit false

namespace ScriptFront.Buffer

variable {α : Type}

/-- The word that opens the text of a buffer. -/
def textName : String := "DynArray"

/-- A buffer on one line, its elements written by `write`. -/
def line (write : α → String) (b : Buffer α) : String :=
  textName ++ " \x7b len: " ++ toString b.size ++ ", capacity: " ++ toString b.capacity
    ++ ", items: [" ++ ", ".intercalate (b.toList.map write) ++ "] \x7d"

/-- The elements, each on a line of its own inside brackets. -/
def stackedItems (write : α → String) (items : List α) : String :=
  if items.isEmpty then "[]"
  else "[\n" ++ String.join (items.map fun a => "        " ++ write a ++ ",\n") ++ "    ]"

/-- A buffer on several lines, its elements written by `write`. -/
def lines (write : α → String) (b : Buffer α) : String :=
  textName ++ " \x7b\n    len: " ++ toString b.size ++ ",\n    capacity: " ++ toString b.capacity
    ++ ",\n    items: " ++ stackedItems write b.toList ++ ",\n\x7d"

end ScriptFront.Buffer
