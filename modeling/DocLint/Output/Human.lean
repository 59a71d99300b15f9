-- SUMMARY: The report for people: a header for each root, a line for each defect, a summary, and messages on trouble.
import DocLint.Defect
import DocLint.Output.Style

/-! # Output for people -/

namespace DocLint.Human

/-- A blank line, then the header of a root as it was given. -/
def rootHeader (root : Path) : List Piece :=
  [.text "\n", .text ("Checking for missing comments in " ++ root.text ++ "...\n")]

def defect (d : Defect) : List Piece :=
  [.start .yellow false, .text d.message, .reset, .text "\n"]

/-- The last line, with the number of defects. -/
def summary (count : Nat) : List Piece :=
  if 0 < count then
    [.text "\n", .start .red true, .text ("🚨 " ++ toString count ++ " missing comments found!"),
     .reset, .text "\n"]
  else
    [.start .green false, .text "✅ No missing comments found!", .reset, .text "\n"]

/-- The message on a root that is no directory. -/
def missingRoot (root : Path) : List Piece :=
  [.start .red false, .text ("ERROR: Directory " ++ root.text ++ " not found!"), .reset, .text "\n"]

def warning (message : String) : List Piece :=
  [.start .yellow false, .text "Warning:", .reset, .text (" " ++ message ++ "\n")]

end DocLint.Human
