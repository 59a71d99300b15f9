-- SUMMARY: The rules of a check: which files are looked at, which lines are declarations, which lines document.
import DocLint.Path
import DocLint.Text.Split
import DocLint.Text.WhiteSpace

/-! # Rules

A line is judged by its text without surrounding white space: it is ignored if it
starts with an ignore prefix, else it is a declaration if one of its words is a
keyword. Words are what the space U+0020 divides, so a tab does not end a word.
Whether a line documents the next one is asked of the raw line.
-/

namespace DocLint

/-- What is checked and how. -/
structure Rules where
  /-- The extensions of the files that are checked. -/
  extensions : List String
  /-- The words that introduce a declaration. -/
  keywords : List String
  /-- Lines that start with one of these are no declarations. -/
  ignorePrefixes : List String
  /-- A line that contains this documents the line below it. -/
  docMarker : String
  deriving DecidableEq, Repr

/-- What a line is. -/
inductive LineKind where
  | ignored
  | declaration
  | plain
  deriving DecidableEq, Repr

namespace Rules

/-- Files of this path are checked. -/
def isCheckable (rules : Rules) (path : Path) : Bool :=
  rules.extensions.contains path.extension

/-- What a line is, by its text without surrounding white space. -/
def classify (rules : Rules) (line : List Char) : LineKind :=
  let text := Text.trim line
  if rules.ignorePrefixes.any fun start => start.toList.isPrefixOf text then .ignored
  else if (text.splitOn ' ').any fun word => rules.keywords.any fun key => key.toList = word
  then .declaration
  else .plain

/-- The line documents the line below it. -/
def documents (rules : Rules) (line : List Char) : Bool :=
  Text.occursIn rules.docMarker.toList line

end Rules

end DocLint
