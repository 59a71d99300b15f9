-- SUMMARY: What a walk reports: defects, the number of files checked, skipped entries and warnings; how reports add up.
import DocLint.Defect

/-! # Reports -/

namespace DocLint

/-- Why an entry was not checked. -/
inductive SkipReason where
  | excluded
  | uncheckedExtension
  | notRegular
  deriving DecidableEq, Repr

def SkipReason.text : SkipReason → String
  | .excluded => "excluded by pattern"
  | .uncheckedExtension => "unchecked extension"
  | .notRegular => "not a regular file"

/-- An entry that was seen and not checked. -/
structure Skipped where
  path : Path
  reason : SkipReason
  deriving DecidableEq, Repr

/-- The result of one or more walks. -/
structure Report where
  /-- The defects, in the order of the walk. -/
  defects : List Defect := []
  /-- The number of files that were read and scanned, which wraps around. -/
  filesChecked : UInt64 := 0
  skipped : List Skipped := []
  /-- What could not be read. -/
  warnings : List String := []
  deriving DecidableEq, Repr

namespace Report

/-- The report of no walk. -/
def empty : Report := {}

/-- Adds a report at the end of another one. -/
def merge (r s : Report) : Report where
  defects := r.defects ++ s.defects
  filesChecked := r.filesChecked + s.filesChecked
  skipped := r.skipped ++ s.skipped
  warnings := r.warnings ++ s.warnings

def defectCount (r : Report) : Nat :=
  r.defects.length

/-- No defect was found. -/
def passed (r : Report) : Bool :=
  r.defects.isEmpty

@[simp] theorem merge_empty (r : Report) : r.merge empty = r := by
  simp [merge, empty]

@[simp] theorem empty_merge (r : Report) : empty.merge r = r := by
  simp [merge, empty]

theorem merge_assoc (r s t : Report) : (r.merge s).merge t = r.merge (s.merge t) := by
  simp [merge, UInt64.add_assoc]

theorem passed_iff_defectCount (r : Report) : r.passed = true ↔ r.defectCount = 0 := by
  simp [passed, defectCount]

end Report

end DocLint
