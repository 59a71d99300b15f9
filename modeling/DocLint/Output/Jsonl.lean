-- SUMMARY: The report for programs: one record a line, first the defects, last a summary.
import DocLint.Json.Value
import DocLint.Walk.Report

/-! # Output for programs -/

namespace DocLint.Jsonl

def defect (d : Defect) : Json.Value :=
  .ofFields [("type", .ofText "defect"), ("file", .ofText d.file.text), ("line", .ofNat d.line)]

/-- The record that ends the output. -/
def summary (roots : List Path) (report : Report) : Json.Value :=
  .ofFields
    [("type", .ofText "summary"),
     ("roots", .array (roots.map fun root => .ofText root.text)),
     ("files_checked", .ofNat report.filesChecked.toNat),
     ("defects", .ofNat report.defectCount),
     ("passed", .bool report.passed)]

/-- The line of a record. -/
def line (record : Json.Value) : String :=
  record.render ++ "\n"

end DocLint.Jsonl
