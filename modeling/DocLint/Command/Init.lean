-- SUMMARY: The first settings file: its text, and when it is written.
import DocLint.FileTree.Edit

/-! # The first settings file -/

namespace DocLint.Command

def configName : String := "doccheck.toml"

def configPath (dir : Path) : Path :=
  dir.join (Text.Utf8.encode configName.toList)

/-- The lines of the first settings file, which holds the defaults. -/
def templateLines : List String :=
  ["[doccheck]",
   "version = \"1\"",
   "",
   "# Root directories to scan, in order",
   "roots = [\"./src\"]",
   "",
   "# File extensions that are checked",
   "extensions = [\"rs\"]",
   "",
   "# Tokens that introduce a declaration (matched as whole space-separated words)",
   "keywords = [\"fn\", \"struct\"]",
   "",
   "# Lines starting with one of these (after trimming) are never declarations",
   "ignore_prefixes = [\"//\", \"/*\", \"*/\", \"*\"]",
   "",
   "# A declaration is documented when the line directly above contains this",
   "doc_marker = \"///\"",
   "",
   "# Paths to skip, relative to each root",
   "# exclude = [\"**/generated/**\"]",
   "",
   "# Respect .gitignore files while walking",
   "# gitignore = true",
   "",
   "[output]",
   "format = \"human\""]

/-- The text of the first settings file. -/
def template : List Char :=
  templateLines.flatMap fun line => line.toList ++ ['\n']

/-- What became of the settings file. -/
inductive InitOutcome where
  | created
  /-- It was there already, and was left alone. -/
  | skipped
  | overwritten
  deriving DecidableEq, Repr

/-- The text of the error when the settings file cannot be written. -/
def initMessage (fault : FileTree.Fault) : String :=
  "I/O error: " ++ fault.message

/-- Writes the settings file into a directory. A file that is there is left alone unless
    `force` is given. -/
def init (tree : FileTree) (dir : Path) (force : Bool) : FileTree.Attempt InitOutcome :=
  let present := tree.exists? (configPath dir)
  if present && !force then ⟨.ok .skipped, tree⟩
  else
    let written := tree.write (configPath dir) (Text.Utf8.encode template)
    ⟨written.result.map fun _ => if present then .overwritten else .created, written.tree⟩

end DocLint.Command
