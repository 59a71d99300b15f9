-- SUMMARY: How a tree is walked: the rules, the exclude globs, whether ignore files count; and the errors of a walk.
import DocLint.Rules
import DocLint.Walk.Layer

/-! # Walkers

Below the root every entry is asked two questions. The ignore files of the
directories between the root and the entry may drop it without a trace. Else the
exclude globs, which match the path from the root, may exclude it. Ignore files above
the root say nothing about entries, but what is wrong with them is told.

That there is no current directory to make a root absolute with is not among the errors:
the working directory of a file tree always has a path.
-/

namespace DocLint

/-- How a tree is walked. -/
structure Walker where
  rules : Rules
  exclude : List Glob
  /-- Ignore files are in force. -/
  gitignore : Bool

/-- Why a walk fails. -/
inductive WalkError where
  | rootNotFound (root : Path)
  | invalidGlob (error : Glob.Error)
  /-- The exclude globs make no set. -/
  | invalidSet (error : Glob.SetError)

def WalkError.message : WalkError → String
  | .rootNotFound root => "Directory " ++ root.text ++ " not found!"
  | .invalidGlob error => "Invalid glob pattern '" ++ error.pattern ++ "': " ++ error.message
  | .invalidSet error => "Invalid glob pattern '<globset>': " ++ error.message

namespace Walker

/-- The walker with the given patterns, if each of them is a glob and they make a set. -/
def make (rules : Rules) (exclude : List String) (gitignore : Bool) : Except WalkError Walker :=
  match exclude.mapM (Glob.parse .wholePath) with
  | .error e => .error (.invalidGlob e)
  | .ok globs =>
    match Glob.setError? globs with
    | some e => .error (.invalidSet e)
    | none => .ok ⟨rules, globs, gitignore⟩

/-- The layers in force in a directory, given those in force where it stands. -/
def enter (w : Walker) (tree : FileTree) (layers : List IgnoreLayer) (dir : Path) (depth : Nat) :
    List IgnoreLayer :=
  if w.gitignore then IgnoreLayer.read tree dir depth :: layers else []

/-- The texts of what is wrong with the ignore files above a root. -/
def problemsAbove (w : Walker) (tree : FileTree) (root : Path) : List String :=
  if w.gitignore then (tree.ancestors root).flatMap (IgnoreLayer.problems tree) else []

/-- An exclude glob matches the path that the names make. -/
def excludes (w : Walker) (trail : List Name) : Bool :=
  w.exclude.any fun glob => glob.isMatch (joinNames trail)

end Walker

end DocLint
