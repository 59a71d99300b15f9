-- SUMMARY: Settings read from the table of a document: the first value that does not fit is the error.
import DocLint.Config.Basic
import DocLint.Decimal.Shortest
import DocLint.Text.Quoted
import DocLint.Toml.Document

/-! # The shape of a settings file

The entries of a table are read in the order of the document, and those of other
names are passed over. What is missing is noticed after the last entry. In place of a
table there may be an array, which has the fields in the order of their declaration.
-/

namespace DocLint

namespace Config

open Toml (Value)

-- ---------------------------------------------------------------------------
-- Errors
-- ---------------------------------------------------------------------------

/-- What a value is said to be where it does not fit. -/
def describe : Value → String
  | .string text => "string " ++ Text.quoted text
  | .integer n => "integer `" ++ toString n ++ "`"
  | .float x => "floating point `" ++ x.toText ++ "`"
  | .boolean b => "boolean `" ++ (if b then "true" else "false") ++ "`"
  | .array _ | .tables _ => "sequence"
  | .table _ _ | .dateTime _ => "map"

/-- The word for the type of a value. -/
def typeName : Value → String
  | .string _ => "string"
  | .integer _ => "integer"
  | .float _ => "float"
  | .boolean _ => "boolean"
  | .dateTime _ => "datetime"
  | .array _ | .tables _ => "array"
  | .table _ _ => "table"

/-- Why a document does not fit. -/
inductive Misfit where
  | missingField (name : String)
  | invalidType (found : String) (expected : String)
  | emptySequence (expected : String) (fields : Nat)
  | unknownVariant (given : String) (variants : List String)
  | notStringOrTable
  | noElement
  | manyElements
  | notTable (found : String)
  | notEmptyTable
  | notEmptyArray
  deriving DecidableEq, Repr

/-- A list of choices, each in quotation marks. -/
def choices : List String → String
  | [a, b] => "`" ++ a ++ "` or `" ++ b ++ "`"
  | names => "one of " ++ String.intercalate ", " (names.map fun n => "`" ++ n ++ "`")

def Misfit.message : Misfit → String
  | .missingField name => "missing field `" ++ name ++ "`"
  | .invalidType found expected => "invalid type: " ++ found ++ ", expected " ++ expected
  | .emptySequence expected fields =>
    "invalid length 0, expected " ++ expected ++ " with " ++ toString fields ++ " elements"
  | .unknownVariant given variants =>
    "unknown variant `" ++ given ++ "`, expected " ++ choices variants
  | .notStringOrTable => "wanted string or table"
  | .noElement => "wanted exactly 1 element, found 0 elements"
  | .manyElements => "wanted exactly 1 element, more than 1 element"
  | .notTable found => "expected table, found " ++ found
  | .notEmptyTable => "expected empty table"
  | .notEmptyArray => "expected empty array"

/-- The misfit of a value where something else is expected. -/
def mistyped (value : Value) (expected : String) : Misfit :=
  .invalidType (describe value) expected

-- ---------------------------------------------------------------------------
-- Simple values
-- ---------------------------------------------------------------------------

variable {α : Type}

def readText (expected : String) : Value → Except Misfit String
  | .string text => .ok text
  | value => .error (mistyped value expected)

def readList (element : Value → Except Misfit α) : Value → Except Misfit (List α)
  | .array elements => elements.mapM element
  | .tables elements => elements.mapM element
  | value => .error (mistyped value "a sequence")

def readFlag : Value → Except Misfit Bool
  | .boolean b => .ok b
  | value => .error (mistyped value "a boolean")

def readTexts : Value → Except Misfit (List String) :=
  readList (readText "a string")

def readPaths : Value → Except Misfit (List Path) :=
  readList fun value => (readText "path string" value).map Path.ofString

-- ---------------------------------------------------------------------------
-- Choices
-- ---------------------------------------------------------------------------

/-- The choice of a name. -/
def choose (variants : List (String × α)) (name : String) : Except Misfit α :=
  match variants.lookup name with
  | some a => .ok a
  | none => .error (.unknownVariant name (variants.map (·.1)))

/-- What may stand under the name of a choice: nothing. -/
def readNothing : Value → Except Misfit Unit
  | .array [] | .tables [] | .table _ [] => .ok ()
  | .array _ | .table _ _ => .error .notEmptyTable
  | .tables _ => .error .notEmptyArray
  | value => .error (.notTable (typeName value))

/-- A value that is one of several choices: its name, or a table with its name. -/
def readChoice (variants : List (String × α)) : Value → Except Misfit α
  | .string name => choose variants name
  | .table _ [] => .error .noElement
  | .table _ [(name, value)] => do
    let a ← choose variants name
    readNothing value
    return a
  | .table _ _ => .error .manyElements
  | _ => .error .notStringOrTable

def formats : List (String × Format) :=
  [("human", .human), ("jsonl", .jsonl)]

def colourChoices : List (String × ColourChoice) :=
  [("auto", .auto), ("always", .always), ("never", .never)]

-- ---------------------------------------------------------------------------
-- Tables
-- ---------------------------------------------------------------------------

/-- The settings of the check as they are read: the version has no default. -/
structure Draft where
  version : Option String := none
  settings : CheckSettings := {}

/-- Sets one field of the settings of the check. Other names are passed over. -/
def Draft.set (d : Draft) (name : String) (value : Value) : Except Misfit Draft :=
  let s := d.settings
  match name with
  | "version" => (readText "a string" value).map fun v => { d with version := some v }
  | "roots" => (readPaths value).map fun v => { d with settings := { s with roots := v } }
  | "extensions" => (readTexts value).map fun v => { d with settings := { s with extensions := v } }
  | "keywords" => (readTexts value).map fun v => { d with settings := { s with keywords := v } }
  | "ignore_prefixes" =>
    (readTexts value).map fun v => { d with settings := { s with ignorePrefixes := v } }
  | "doc_marker" =>
    (readText "a string" value).map fun v => { d with settings := { s with docMarker := v } }
  | "exclude" => (readTexts value).map fun v => { d with settings := { s with exclude := v } }
  | "gitignore" => (readFlag value).map fun v => { d with settings := { s with gitignore := v } }
  | _ => .ok d

/-- The fields of the settings of the check, in the order of an array. -/
def checkFields : List String :=
  ["version", "roots", "extensions", "keywords", "ignore_prefixes", "doc_marker", "exclude",
   "gitignore"]

/-- The settings of the check, once all fields are read. -/
def Draft.finish (d : Draft) : Except Misfit CheckSettings :=
  match d.version with
  | some v => .ok { d.settings with version := v }
  | none => .error (.missingField "version")

/-- The settings of the check from fields in order. -/
def readCheckFields (fields : List (String × Value)) : Except Misfit CheckSettings := do
  let d ← fields.foldlM (fun d (name, value) => Draft.set d name value) {}
  d.finish

/-- What the table of the check is called where it is missing. -/
def checkName : String := "struct DocCheckMeta"

/-- The settings of the check. A date counts as a table without any of the fields. -/
def readCheck : Value → Except Misfit CheckSettings
  | .table _ entries => readCheckFields entries
  | .array [] | .tables [] => .error (.emptySequence checkName checkFields.length)
  | .array elements => readCheckFields (checkFields.zip elements)
  | .tables elements => readCheckFields (checkFields.zip elements)
  | .dateTime _ => .error (.missingField "version")
  | value => .error (mistyped value checkName)

/-- Sets one field of the settings of the output. Other names are passed over. -/
def setOutput (o : OutputSettings) (name : String) (value : Value) : Except Misfit OutputSettings :=
  match name with
  | "format" => (readChoice formats value).map fun v => { o with format := v }
  | "color" => (readChoice colourChoices value).map fun v => { o with colour := v }
  | _ => .ok o

/-- The settings of the output from fields in order. -/
def readOutputFields (fields : List (String × Value)) : Except Misfit OutputSettings :=
  fields.foldlM (fun o (name, value) => setOutput o name value) {}

/-- The fields of the settings of the output, in the order of an array. -/
def outputFields : List String := ["format", "color"]

/-- The settings of the output. A date counts as a table without any of the fields. -/
def readOutput : Value → Except Misfit OutputSettings
  | .table _ entries => readOutputFields entries
  | .array elements => readOutputFields (outputFields.zip elements)
  | .tables elements => readOutputFields (outputFields.zip elements)
  | .dateTime _ => .ok {}
  | value => .error (mistyped value "struct OutputConfig")

/-- The settings of a document. -/
def ofToml (entries : List (String × Value)) : Except Misfit Config := do
  let (check, output) ← entries.foldlM
    (fun (check, output) (name, value) =>
      match name with
      | "doccheck" => (readCheck value).map fun c => (some c, output)
      | "output" => (readOutput value).map fun o => (check, o)
      | _ => .ok (check, output))
    ((none : Option CheckSettings), ({} : OutputSettings))
  match check with
  | some check => return ⟨check, output⟩
  | none => .error (.missingField "doccheck")

end Config

end DocLint
