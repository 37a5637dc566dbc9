/-
The program on a machine.

Here the operations that a command asks for are those of the operating system,
and events are shown as soon as they are told. Nothing is decided here: what
is done is `Command.Invocation.perform`, and what is shown is its display.
-/
import ScriptFront.Command.Session

set_option autoImplicit false

namespace ScriptFront.Machine

/-- Runs on the machine with a way to show events. -/
abbrev Run := ReaderT Log.Display IO

/-- The cause with a number that the operating system gives, and its words. -/
def numberedCause (number : UInt32) (words : String) : File.Fault :=
  match number with
  | 2 => .notFound
  | 16 => .busy
  | 17 => .alreadyThere
  | 20 => .notDirectory
  | 21 => .isDirectory
  | 36 => .nameTooLong
  | _ => .other (File.Fault.numbered words number.toNat)

/-- The cause of an error of the machine. -/
def cause : IO.Error → File.Fault
  | .alreadyExists _ n s | .invalidArgument _ n s | .permissionDenied _ n s
  | .resourceExhausted _ n s | .inappropriateType _ n s | .noSuchThing _ n s
  | .interrupted _ n s | .noFileOrDirectory _ n s
  | .otherError n s | .resourceBusy n s | .resourceVanished n s | .unsupportedOperation n s
  | .hardwareFault n s | .unsatisfiedConstraints n s | .illegalOperation n s | .protocolError n s
  | .timeExpired n s => numberedCause n s
  | .unexpectedEof => .other "unexpected end of file"
  | .userError s => .other s

/-- An operation of the machine, with its errors as values. -/
def guarded {ε α : Type} (f : File.Fault → ε) (operation : IO α) : ExceptT ε Run α :=
  ExceptT.mk do
    try return .ok (← operation)
    catch e => return .error (f (cause e))

/-- The content of a file: it is opened, and then read to its end. -/
def readFile (path : String) : ExceptT File.ReadFault Run ByteArray := do
  let handle ← guarded .opening (IO.FS.Handle.mk path .read)
  guarded .reading handle.readBinToEnd

/-- Whether a path leads to anything: what leads nowhere has no place on the machine. -/
def isThere (path : String) : Run Bool := do
  try
    let _ ← IO.FS.realPath path
    return true
  catch _ => return false

/-- Copies a file's content. -/
def copyFile (source path : String) : IO Unit := do
  IO.FS.writeBinFile path (← IO.FS.readBinFile source)

instance : Host Run where
  read := readFile
  isThere := isThere
  create path := guarded id do let _ ← IO.FS.Handle.mk path .write
  write path content := guarded id (IO.FS.writeBinFile path content)
  remove path := guarded id (IO.FS.removeFile path)
  rename source path := guarded id (IO.FS.rename source path)
  copy source path := guarded id (copyFile source path)
  input := guarded id do (← IO.getStdin).readBinToEnd
  print s := do
    let out ← IO.getStdout
    out.putStr s
    out.flush
  tell e := do (← IO.getStderr).putStr ((← read).shown e)

/-- The variables that matter. -/
def environment : IO Command.Environment := do
  return {
    logFilter := ← IO.getEnv "RUST_LOG"
    logStyle := ← IO.getEnv "RUST_LOG_STYLE"
    noColor := ← IO.getEnv "NO_COLOR"
    forceColor := ← IO.getEnv "CLICOLOR_FORCE" }

end ScriptFront.Machine

open ScriptFront Command in
/-- The command line program. -/
def main (args : List String) : IO UInt32 := do
  match Invocation.read args with
  | .error stop =>
    IO.print stop.printed
    IO.eprint stop.complaint
    return stop.status.code.toUInt32
  | .ok invocation =>
    let environment ← Machine.environment
    let status ← (invocation.perform (m := Machine.Run) environment).run
      (invocation.display environment)
    return status.code.toUInt32
