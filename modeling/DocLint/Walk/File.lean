-- SUMMARY: The check of one file: its extension decides whether it is opened at all.
import DocLint.FileTree.Resolve
import DocLint.Scan

/-! # Checking a file -/

namespace DocLint

/-- What became of a file. -/
inductive FileOutcome where
  | notCheckable
  | checked (defects : List Defect)
  | unreadable (fault : FileTree.Fault)
  deriving DecidableEq, Repr

def readWarning (path : Path) (fault : FileTree.Fault) : String :=
  "Failed to read file " ++ path.text ++ ": " ++ fault.message

/-- The check of a file at a path, by the text it holds or the fault of reading it. -/
def Rules.checkText (rules : Rules) (path : Path) (text : Except FileTree.Fault (List Char)) :
    FileOutcome :=
  if rules.isCheckable path then
    match text with
    | .ok content => .checked (rules.checkSource path content)
    | .error fault => .unreadable fault
  else .notCheckable

/-- The check of the file that a path leads to. -/
def Rules.checkFile (rules : Rules) (tree : FileTree) (path : Path) : FileOutcome :=
  rules.checkText path (tree.readText path)

end DocLint
