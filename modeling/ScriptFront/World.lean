/-
Surroundings that are a value.

A world is a file tree, the bytes that wait on the standard input, and what has
been printed and told so far. A file operation either succeeds and gives the
next tree or fails and leaves the tree alone.
-/
import ScriptFront.File.Tree
import ScriptFront.Host

set_option autoImplicit false

namespace ScriptFront

/-- A file tree, an input, and what has come out. -/
structure World where
  tree : File.Tree
  input : ByteArray
  printed : String := ""
  toldReversed : List Log.Event := []

namespace World

/-- What has been told so far, in order. -/
def told (w : World) : List Log.Event := w.toldReversed.reverse

/-- The answer of the file tree, which stays as it is. -/
def ask {ε α : Type} (f : File.Tree → Except ε α) : ExceptT ε (StateM World) α :=
  ExceptT.mk fun w => (f w.tree, w)

/-- A change of the file tree, which stays as it is if the change fails. -/
def change (f : File.Tree → Except File.Fault File.Tree) :
    ExceptT File.Fault (StateM World) Unit :=
  ExceptT.mk fun w =>
    match f w.tree with
    | .ok tree => (.ok (), { w with tree })
    | .error cause => (.error cause, w)

instance : Host (StateM World) where
  read path := ask (·.read path)
  isThere path := fun w => (w.tree.isThere path, w)
  create path := change (·.create path)
  write path content := change (·.write path content)
  remove path := change (·.remove path)
  rename source path := change (·.rename source path)
  copy source path := change (·.copy source path)
  input := ExceptT.mk fun w => (.ok w.input, { w with input := .empty })
  print s := fun w => ((), { w with printed := w.printed ++ s })
  tell e := fun w => ((), { w with toldReversed := e :: w.toldReversed })

end World

end ScriptFront
