-- SUMMARY: Settings from a text or a file: the document, its shape, its validity, and what goes wrong with each.
import DocLint.Config.Shape
import DocLint.Config.Validity

/-! # Loading settings -/

namespace DocLint

namespace Config

/-- Why there are no settings. -/
inductive Error where
  /-- The file cannot be read. -/
  | io (fault : FileTree.Fault)
  /-- The text is not a document. -/
  | malformed
  /-- The document does not have the shape of settings. -/
  | shape (misfit : Misfit)
  | invalid (reason : Invalid)
  deriving DecidableEq, Repr

def Error.message : Error → String
  | .io fault => "I/O error: " ++ fault.message
  | .malformed => "Invalid configuration syntax: not a TOML document"
  | .shape misfit => "Invalid configuration syntax: " ++ misfit.message
  | .invalid reason => "Invalid configuration: " ++ reason.text

/-- The file was read and is not a settings file, by its text or by its shape. -/
def Error.isParse : Error → Bool
  | .malformed | .shape _ => true
  | .io _ | .invalid _ => false

/-- The settings, if they are valid. -/
def validate (config : Config) : Except Error Config :=
  match config.invalid? with
  | none => .ok config
  | some reason => .error (.invalid reason)

/-- The settings with values put in their place, if they are still valid. -/
def apply (config : Config) (o : Overrides) : Except Error Config :=
  (config.override o).validate

/-- The settings that a text holds. -/
def parse (text : List Char) : Except Error Config :=
  match Toml.parse? text with
  | none => .error .malformed
  | some entries =>
    match ofToml entries with
    | .error misfit => .error (.shape misfit)
    | .ok config => config.validate

def load (tree : FileTree) (path : Path) : Except Error Config :=
  match tree.readText path with
  | .ok text => parse text
  | .error fault => .error (.io fault)

end Config

end DocLint
