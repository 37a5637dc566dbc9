/-
What a command needs from its surroundings.

Beside files these are the standard input, which is read as a whole, the
standard output, and a place for events. Events are handed over unfiltered, so
that a command does the same work whatever is shown of it.
-/
import ScriptFront.File.Store
import ScriptFront.Log.Event

set_option autoImplicit false

namespace ScriptFront

/-- Surroundings in which a command can be run. -/
class Host (m : Type → Type) extends File.Store m where
  input : ExceptT File.Fault m ByteArray
  print : String → m Unit
  tell : Log.Event → m Unit

/-- Tells that something has been remarked. -/
def Host.remark {m : Type → Type} [Host m] (r : Log.Record) : m Unit := tell (.record r)

end ScriptFront
