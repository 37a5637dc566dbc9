/-
A whole run of the program.

The arguments either stop the program at once or give an invocation. Carrying
out an invocation always ends with an exit status, since a failure is told and
turned into one. `answer` runs the program in a world and says what comes out on
either stream, with the log shown as the invocation and the variables ask for.
-/
import ScriptFront.Command.Help
import ScriptFront.Command.Invocation
import ScriptFront.Command.Run
import ScriptFront.World

set_option autoImplicit false

namespace ScriptFront.Command

/-! ## Ending early -/

namespace Stop

/-- How the run ends. -/
def status : Stop → ExitStatus
  | .help _ | .version => .success
  | .usage _ => .usage

/-- What goes to the standard output. -/
def printed : Stop → String
  | .help scope => scope.helpText
  | .version => versionText
  | .usage _ => ""

/-- What goes to the error stream. -/
def complaint : Stop → String
  | .usage fault => fault.text
  | _ => ""

end Stop

/-! ## Carrying out an invocation -/

/-- The line that tells a failure. -/
def Failure.line (f : Failure) : String :=
  "error: " ++ chain ["échec d\x27exécution de la commande", f.message]

/-- Carries out an invocation, and tells its failure if it has one. -/
def Invocation.perform {m : Type → Type} [Monad m] [Host m] (i : Invocation) (e : Environment) :
    m ExitStatus := do
  tellAll (i.warnings e)
  match ← (run i.command).run with
  | .ok status => return status
  | .error failure => do
    Host.tell (.line failure.line)
    return .failure

/-! ## Running in a world -/

/-- What comes out of a run. -/
structure Answer where
  status : ExitStatus
  output : String
  errors : String
  tree : File.Tree

/-- What comes out if the program is run in a world with some arguments. -/
def answer (args : List String) (e : Environment) (w : World) : Answer :=
  match Invocation.read args with
  | .error stop => { status := stop.status, output := stop.printed, errors := stop.complaint,
                     tree := w.tree }
  | .ok i =>
    let (status, after) := (i.perform (m := StateM World) e).run w
    { status, output := after.printed, errors := (i.display e).shownAll after.told,
      tree := after.tree }

end ScriptFront.Command
