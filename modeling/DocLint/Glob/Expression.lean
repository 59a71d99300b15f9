-- SUMMARY: Regular expressions on bytes, the one that says the same as a glob, its text and how deep it nests.
import DocLint.Glob.Match

/-! # Globs as regular expressions

A glob that cannot be looked up by comparing texts is searched for as a regular
expression. The expression is a sequence of items. It counts as nested one level for
each repetition, class and group, for each sequence of two items or more, for each
choice between two branches or more, and for the members of a class if there are two
or more. An expression may not nest too deep.
-/

namespace DocLint

/-- An item of a regular expression. -/
inductive Expression where
  | byte (b : UInt8)
  /-- Any byte. -/
  | any
  /-- One byte of the ranges, or one that is in none of them. -/
  | oneOf (negated : Bool) (ranges : List (UInt8 × UInt8))
  /-- Any number of times. -/
  | star (item : Expression)
  /-- Once or not at all. -/
  | optional (item : Expression)
  /-- One of several sequences. -/
  | group (branches : List (List Expression))

namespace Expression

-- ---------------------------------------------------------------------------
-- Text
-- ---------------------------------------------------------------------------

/-- The characters that have a meaning of their own in an expression. -/
def special : List Char :=
  ['\\', '.', '+', '*', '?', '(', ')', '|', '[', ']', '\x7b', '\x7d', '^', '$', '#', '&', '-', '~']

def hexDigit (n : Nat) : String :=
  String.ofList (Nat.toDigits 16 n)

/-- How a byte is written: by itself, after a backslash if it has a meaning, and by its
    number if it is not ASCII. -/
def byteText (b : UInt8) : String :=
  let c := Char.ofNat b.toNat
  if 0x80 ≤ b then "\\x" ++ hexDigit (b.toNat / 16) ++ hexDigit (b.toNat % 16)
  else if special.contains c then "\\" ++ c.toString
  else c.toString

/-- How a range of a class is written. -/
def rangeText (range : UInt8 × UInt8) : String :=
  if range.1 = range.2 then byteText range.1
  else byteText range.1 ++ "-" ++ byteText range.2

mutual

/-- How an item is written. -/
def text : Expression → String
  | .byte b => byteText b
  | .any => "."
  | .oneOf negated ranges =>
    "[" ++ (if negated then "^" else "") ++ String.join (ranges.map rangeText) ++ "]"
  | .star item => item.text ++ "*"
  | .optional item => item.text ++ "?"
  | .group branches => "(?:" ++ String.intercalate "|" (branchTexts branches) ++ ")"

def branchTexts : List (List Expression) → List String
  | [] => []
  | b :: bs => sequenceText b :: branchTexts bs

def sequenceText : List Expression → String
  | [] => ""
  | e :: es => e.text ++ sequenceText es

end

-- ---------------------------------------------------------------------------
-- Nesting
-- ---------------------------------------------------------------------------

/-- A level for two things or more, none for a single one. -/
def levelOfSeveral (count : Nat) : Nat :=
  if 2 ≤ count then 1 else 0

mutual

/-- How deep an item nests. -/
def height : Expression → Nat
  | .byte _ => 0
  | .any => 0
  | .oneOf _ ranges => 1 + levelOfSeveral ranges.length
  | .star item => 1 + item.height
  | .optional item => 1 + item.height
  | .group branches => 1 + levelOfSeveral branches.length + branchesHeight branches

/-- How deep the deepest of several sequences nests. -/
def branchesHeight : List (List Expression) → Nat
  | [] => 0
  | b :: bs => max (levelOfSeveral b.length + itemsHeight b) (branchesHeight bs)

/-- How deep the deepest of several items nests. -/
def itemsHeight : List Expression → Nat
  | [] => 0
  | e :: es => max e.height (itemsHeight es)

end

-- ---------------------------------------------------------------------------
-- From globs
-- ---------------------------------------------------------------------------

def slash : Expression := .byte Path.slash

/-- What the wildcard `?` matches. -/
def wild (d : Glob.Dialect) : Expression :=
  if d.crossSlash then .any else .oneOf true [(Path.slash, Path.slash)]

mutual

/-- The items that say the same as a token. -/
def ofToken (d : Glob.Dialect) : Glob.Token → List Expression
  | .literal c => (Text.Utf8.encodeChar c).map .byte
  | .one => [wild d]
  | .many => [.star (wild d)]
  | .anywhere => [.group [[.optional slash], [.star .any, slash]]]
  | .inside => [slash, .star .any]
  | .between => [.group [[slash], [slash, .star .any, slash]]]
  | .oneOf negated ranges => [.oneOf negated (ranges.flatMap Glob.byteRanges)]
  | .alternatives branches =>
    match ofBranches d branches with
    | [] => []
    | sequences => [.group sequences]

/-- The sequences of the branches that describe something. -/
def ofBranches (d : Glob.Dialect) : List (List Glob.Token) → List (List Expression)
  | [] => []
  | b :: bs =>
    match ofTokens d b with
    | [] => ofBranches d bs
    | sequence => sequence :: ofBranches d bs

/-- The items that say the same as tokens. -/
def ofTokens (d : Glob.Dialect) : List Glob.Token → List Expression
  | [] => []
  | t :: ts => ofToken d t ++ ofTokens d ts

end

end Expression

namespace Glob

/-- The regular expression of a glob, without the marks for start and end. -/
def expression (g : Glob) : List Expression :=
  match g.tokens with
  | [.anywhere] => [.star .any]
  | tokens => Expression.ofTokens g.dialect tokens

/-- The text of the regular expression. It is about bytes, and about the whole path. -/
def expressionText (g : Glob) : String :=
  "(?-u)^" ++ Expression.sequenceText g.expression ++ "$"

def maxHeight : Nat := 250

/-- The expression of the glob nests too deep. With the marks for start and end it is
    always a sequence of several items. -/
def isTooDeep (g : Glob) : Bool :=
  maxHeight < 1 + Expression.itemsHeight g.expression

end Glob

end DocLint
