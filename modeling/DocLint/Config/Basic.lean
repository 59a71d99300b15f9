-- SUMMARY: The settings of a run with their defaults, the rules and the walker they give, and overrides.
import DocLint.Walk.Walker

/-! # Settings -/

namespace DocLint

/-- The format of the report. -/
inductive Format where
  | human
  | jsonl
  deriving DecidableEq, Repr

/-- When the report has colour. -/
inductive ColourChoice where
  | auto
  | always
  | never
  deriving DecidableEq, Repr

/-- What is checked. -/
structure CheckSettings where
  version : String := "1"
  /-- The directories to walk, in order. -/
  roots : List Path := [.ofString "./src"]
  extensions : List String := ["rs"]
  keywords : List String := ["fn", "struct"]
  ignorePrefixes : List String := ["//", "/*", "*/", "*"]
  docMarker : String := "///"
  /-- Globs of what is left out, relative to each root. -/
  exclude : List String := []
  /-- Ignore files are in force. -/
  gitignore : Bool := false
  deriving DecidableEq, Repr

/-- How the report is written. -/
structure OutputSettings where
  format : Format := .human
  colour : ColourChoice := .auto
  deriving DecidableEq, Repr

/-- The settings of a run. -/
structure Config where
  check : CheckSettings := {}
  output : OutputSettings := {}
  deriving DecidableEq, Repr

namespace Config

/-- The settings without a file. -/
def default : Config := {}

/-- The two settings are the same, with roots compared as paths and not as texts. -/
def equiv (c d : Config) : Bool :=
  let roots := c.check.roots
  let others := d.check.roots
  roots.length = others.length && (List.zipWith Path.equiv roots others).all id &&
    { c with check := { c.check with roots := others } } = d

def rules (config : Config) : Rules where
  extensions := config.check.extensions
  keywords := config.check.keywords
  ignorePrefixes := config.check.ignorePrefixes
  docMarker := config.check.docMarker

/-- The walker of the settings, if every exclude pattern is a glob. -/
def walker (config : Config) : Except WalkError Walker :=
  Walker.make config.rules config.check.exclude config.check.gitignore

/-- Values that take the place of settings: roots if there are any, and what is given of
    the rest. -/
structure Overrides where
  roots : List Path := []
  format : Option Format := none
  colour : Option ColourChoice := none
  deriving DecidableEq, Repr

/-- The settings with values put in their place. -/
def override (config : Config) (o : Overrides) : Config where
  check := { config.check with roots := if o.roots.isEmpty then config.check.roots else o.roots }
  output :=
    { format := o.format.getD config.output.format
      colour := o.colour.getD config.output.colour }

end Config

end DocLint
