-- SUMMARY: Defects as JSON: the object that is written, and the two forms that are read.
import DocLint.Defect
import DocLint.Json.Reader

/-! # Defects as JSON

A defect is written as an object with the keys `file` and `line`. It is read from
such an object, where other keys are passed over, or from an array of the two.
-/

namespace DocLint

namespace Defect

/-- The object that a defect is written as. -/
def toJson (d : Defect) : Json.Value :=
  .ofFields [("file", .ofText d.file.text), ("line", .ofNat d.line)]

/-- The greatest line number is one below this. -/
def lineBound : Nat := Nat.pow 2 64

/-- The defect with the given file and line. -/
def ofParts? (file line : Json.Value) : Option Defect := do
  return ⟨.ofString (← file.text?), ← line.natBelow? lineBound⟩

/-- The only value that an object has for a key. Every key has to denote a text. -/
def field? (key : String) (entries : List (String × Json.Value)) : Option Json.Value :=
  match entries.filter (·.1 = key) with
  | [(_, value)] => some value
  | _ => none

def ofJson? : Json.Value → Option Defect
  | .object entries => do
    let entries ← entries.mapM fun (key, value) =>
      (Json.Item.text? key).map fun text => (String.ofList text, value)
    ofParts? (← field? "file" entries) (← field? "line" entries)
  | .array [file, line] => ofParts? file line
  | _ => none

def parse? (text : String) : Option Defect :=
  (Json.parse? text.toList).bind ofJson?

end Defect

end DocLint
