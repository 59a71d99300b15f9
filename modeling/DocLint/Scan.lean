-- SUMMARY: The scan of a text: the lines that are declarations and follow a line that does not document them.
import DocLint.Defect
import DocLint.Rules
import DocLint.Text.Lines

/-! # Scanning a text

Every physical line counts, and the line above a declaration is the physical one,
whatever kind it is. The first line is judged as if an empty line stood above it.
-/

namespace DocLint

namespace Rules

/-- The line is a declaration that the line above does not document. -/
def isUndocumented (rules : Rules) (above line : List Char) : Bool :=
  rules.classify line = .declaration && !rules.documents above

/-- The numbers of the undocumented declarations among lines numbered from `n`, where
    `above` stands above the first of them. -/
def undocumented (rules : Rules) (above : List Char) (n : Nat) : List (List Char) → List Nat
  | [] => []
  | line :: rest =>
    let later := rules.undocumented line (n + 1) rest
    if rules.isUndocumented above line then n :: later else later

/-- The defects of a text that stands at `path`. -/
def checkSource (rules : Rules) (path : Path) (content : List Char) : List Defect :=
  (rules.undocumented [] 1 (Text.physicalLines content)).map (Defect.mk path)

end Rules

end DocLint
