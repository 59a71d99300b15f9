-- SUMMARY: Which settings are valid, and the first reason why settings are not.
import DocLint.Config.Basic

/-! # Validity -/

namespace DocLint

namespace Config

/-- Why settings are not valid. -/
inductive Invalid where
  | version (given : String)
  | noRoots
  | noExtensions
  | extension (given : String)
  | noKeywords
  | keyword (given : String)
  | emptyIgnorePrefix
  | emptyDocMarker
  | exclude (error : Glob.Error)
  deriving DecidableEq, Repr

def Invalid.text : Invalid → String
  | .version given => "Unsupported configuration version '" ++ given ++ "'. Expected '1'"
  | .noRoots => "No roots configured. Add at least one directory to `roots`."
  | .noExtensions => "No extensions configured. Add at least one file extension to `extensions`."
  | .extension given => "Invalid extension '" ++ given ++ "': use the bare extension, e.g. \"rs\""
  | .noKeywords => "No keywords configured. Add at least one declaration keyword to `keywords`."
  | .keyword given => "Invalid keyword '" ++ given ++ "': keywords must be single non-empty tokens"
  | .emptyIgnorePrefix => "Empty ignore prefix would ignore every line"
  | .emptyDocMarker => "doc_marker must not be empty"
  | .exclude error => "Invalid exclude glob pattern '" ++ error.pattern ++ "': " ++ error.message

/-- A bare extension: not empty, and without a dot in front. -/
def isExtension (text : String) : Bool :=
  !text.isEmpty && text.toList.head? ≠ some '.'

/-- A single word: not empty, and without a space. -/
def isKeyword (text : String) : Bool :=
  !text.isEmpty && !text.toList.contains ' '

/-- The error of the first pattern that is no glob. -/
def badGlob? (patterns : List String) : Option Glob.Error :=
  patterns.findSome? fun pattern =>
    match Glob.parse .wholePath pattern with
    | .ok _ => none
    | .error e => some e

/-- The first reason why settings are not valid. -/
def invalid? (config : Config) : Option Invalid :=
  let c := config.check
  if c.version ≠ "1" then some (.version c.version)
  else if c.roots.isEmpty then some .noRoots
  else if c.extensions.isEmpty then some .noExtensions
  else
    match c.extensions.find? (!isExtension ·) with
    | some e => some (.extension e)
    | none =>
      if c.keywords.isEmpty then some .noKeywords
      else
        match c.keywords.find? (!isKeyword ·) with
        | some k => some (.keyword k)
        | none =>
          if c.ignorePrefixes.contains "" then some .emptyIgnorePrefix
          else if c.docMarker.isEmpty then some .emptyDocMarker
          else (badGlob? c.exclude).map .exclude

/-- Settings are valid if there is no reason why not. -/
def IsValid (config : Config) : Prop :=
  config.invalid? = none

instance (config : Config) : Decidable config.IsValid :=
  inferInstanceAs (Decidable (config.invalid? = none))

end Config

end DocLint
