-- SUMMARY: Glob patterns: their tokens, the two dialects, and the errors of reading one.
import DocLint.Path

/-! # Globs

A glob describes paths by their bytes. The wildcard `**` is special only where it is
a whole segment; there are three tokens for it, by where it stands.
-/

namespace DocLint

namespace Glob

/-- A part of a pattern. -/
inductive Token where
  /-- A character that stands for itself. -/
  | literal (c : Char)
  /-- `?`: any one byte. -/
  | one
  /-- `*`: any bytes. -/
  | many
  /-- `**/` at the start: nothing, or any directories. -/
  | anywhere
  /-- `/**` at the end: everything inside. -/
  | inside
  /-- `/**/` in the middle: a slash, or any directories between two slashes. -/
  | between
  /-- `[..]`: one byte of the ranges, or one that is in none of them. -/
  | oneOf (negated : Bool) (ranges : List (Char × Char))
  /-- Alternatives in braces. -/
  | alternatives (branches : List (List Token))
  deriving Repr

/-- How patterns are read and what the wildcards `?` and `*` match. -/
structure Dialect where
  /-- The wildcards `?` and `*` match a slash too. -/
  crossSlash : Bool
  /-- A bracket that is never closed stands for itself, instead of being an error. -/
  looseBracket : Bool
  deriving DecidableEq, Repr

/-- The dialect of patterns for whole relative paths. -/
def Dialect.wholePath : Dialect := ⟨true, false⟩

/-- The dialect of ignore files. -/
def Dialect.ignoreFile : Dialect := ⟨false, true⟩

/-- What is wrong with a pattern. -/
inductive Fault where
  | unclosedClass
  | invalidRange (lo hi : Char)
  | unopenedAlternatives
  | unclosedAlternatives
  | danglingEscape
  deriving DecidableEq, Repr

def Fault.text : Fault → String
  | .unclosedClass => "unclosed character class; missing ']'"
  | .invalidRange lo hi => s!"invalid range; '{lo}' > '{hi}'"
  | .unopenedAlternatives =>
    "unopened alternate group; missing '\x7b' (maybe escape '\x7d' with '[\x7d]'?)"
  | .unclosedAlternatives =>
    "unclosed alternate group; missing '\x7d' (maybe escape '\x7b' with '[\x7b]'?)"
  | .danglingEscape => "dangling '\\'"

/-- A fault and the pattern that has it. -/
structure Error where
  pattern : String
  fault : Fault
  deriving DecidableEq, Repr

def Error.message (e : Error) : String :=
  "error parsing glob '" ++ e.pattern ++ "': " ++ e.fault.text

end Glob

/-- A pattern that has been read. -/
structure Glob where
  pattern : String
  dialect : Glob.Dialect
  tokens : List Glob.Token
  deriving Repr

end DocLint
