-- SUMMARY: A declaration without documentation: its place, its text, and the order of defects.
import DocLint.Path

/-! # Defects -/

namespace DocLint

/-- A declaration that the line above does not document. -/
structure Defect where
  file : Path
  /-- The number of the line, from one. -/
  line : Nat
  deriving DecidableEq, Repr

namespace Defect

def message (d : Defect) : String :=
  "Missing Comment: " ++ d.file.text ++ ", line " ++ toString d.line

/-- The order of defects: by file, then by line. -/
protected def compare (a b : Defect) : Ordering :=
  (a.file.compare b.file).then (compare a.line b.line)

/-- The two defects are the same place: equal lines of files with equal components. -/
def equiv (a b : Defect) : Bool :=
  a.file.equiv b.file && a.line == b.line

/-- Sorts defects. Those that are the same place keep their order. -/
def sort (defects : List Defect) : List Defect :=
  defects.mergeSort fun a b => (a.compare b).isLE

end Defect

end DocLint
