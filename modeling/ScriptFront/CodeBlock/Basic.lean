/-
Blocks of compiled code.

A block holds instruction bytes, the source line of each byte, and a pool of
constants that instructions refer to by index. Bytes and lines are appended
together, so the two buffers stay equally long; `CodeBlock.check` looks whether
they are. The pool only grows between two releases, and equal constants get
places of their own, so an index keeps meaning the constant it was given for.
-/
import ScriptFront.Buffer.Basic
import ScriptFront.Number.Binary64

set_option autoImplicit false

namespace ScriptFront

open Number (Binary64)

/-- Instruction bytes with their source lines, and a pool of constants. -/
structure CodeBlock where
  code : Buffer UInt8
  lines : Buffer Nat
  constants : Buffer Binary64

namespace CodeBlock

/-- A block without code and constants. -/
def empty : CodeBlock := { code := .empty, lines := .empty, constants := .empty }

instance : Inhabited CodeBlock := ⟨empty⟩

/-- The number of instruction bytes. -/
def size (b : CodeBlock) : Nat := b.code.size

/-- Whether there is no instruction byte. -/
def isEmpty (b : CodeBlock) : Bool := b.code.isEmpty

/-- One more instruction byte, which came from the given source line. -/
def append (b : CodeBlock) (byte : UInt8) (line : Nat) : CodeBlock :=
  { b with code := b.code.append byte, lines := b.lines.append line }

/-- One more constant, and its index in the pool. -/
def addConstant (b : CodeBlock) (x : Binary64) : CodeBlock × Nat :=
  ({ b with constants := b.constants.append x }, b.constants.size)

/-- The block without its code and constants. -/
def release (b : CodeBlock) : CodeBlock where
  code := b.code.release
  lines := b.lines.release
  constants := b.constants.release

/-- The same block in memory of its own. -/
def copy (b : CodeBlock) : CodeBlock where
  code := b.code.copy
  lines := b.lines.copy
  constants := b.constants.copy

/-- The source line of the byte at an offset, if there is one. -/
def lineAt? (b : CodeBlock) (offset : Nat) : Option Nat := b.lines.get? offset

/-- The constant at an index, if there is one. -/
def constant? (b : CodeBlock) (index : Nat) : Option Binary64 := b.constants.get? index

/-- Looks whether every instruction byte has its line. -/
def check (b : CodeBlock) : Except StorageFault Unit :=
  if b.code.size = b.lines.size then .ok ()
  else .error (.lineTableMismatch b.code.size b.lines.size)

/-- Whether two blocks have the same bytes, lines and constants, where constants
are compared as numbers. -/
def equal (a b : CodeBlock) : Bool :=
  a.code.equal (· == ·) b.code && a.lines.equal (· == ·) b.lines
    && a.constants.equal Binary64.equal b.constants

@[simp] theorem toList_code_append (b : CodeBlock) (byte : UInt8) (line : Nat) :
    (b.append byte line).code.toList = b.code.toList ++ [byte] := by
  simp [append]

@[simp] theorem toList_lines_append (b : CodeBlock) (byte : UInt8) (line : Nat) :
    (b.append byte line).lines.toList = b.lines.toList ++ [line] := by
  simp [append]

@[simp] theorem toList_constants_addConstant (b : CodeBlock) (x : Binary64) :
    (b.addConstant x).1.constants.toList = b.constants.toList ++ [x] := by
  simp [addConstant]

end CodeBlock

end ScriptFront
