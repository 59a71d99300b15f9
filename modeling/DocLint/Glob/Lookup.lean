-- SUMMARY: How the globs of a set are looked up, and which sets cannot be made.
import DocLint.Glob.Expression

/-! # Sets of globs

Globs are looked up together. Most are compared as texts: with the name of an entry, its
whole path, the start or the end of it, or its extension. Only the others need their
expressions: on the names of entries, on the paths with the extension they end in, or on
all paths. A set cannot be made if an expression for paths nests too deep. Those for names
have no groups, so they never do.

There is a limit of memory for what expressions compile to as well. It is left out here: the
globs of a set are taken to be short enough for it.
-/

namespace DocLint.Glob

def Token.literal? : Token → Option Char
  | .literal c => some c
  | _ => none

/-- The text of tokens that are all literals. -/
def literals? (tokens : List Token) : Option (List Char) :=
  tokens.mapM Token.literal?

-- ---------------------------------------------------------------------------
-- Globs that are compared as texts
-- ---------------------------------------------------------------------------

/-- The glob is a name, at any depth. -/
def isName (g : Glob) : Bool :=
  match g.tokens with
  | .anywhere :: rest =>
    match literals? rest with
    | some text => !text.isEmpty && !text.contains '/'
    | none => false
  | _ => false

/-- The glob is a text. The empty glob is not looked up as one. -/
def isText (g : Glob) : Bool :=
  !g.tokens.isEmpty && (literals? g.tokens).isSome

def isExtension (g : Glob) : Bool :=
  let (anywhere, tokens) := match g.tokens with
    | .anywhere :: rest => (true, rest)
    | tokens => (false, tokens)
  match tokens with
  | .many :: .literal '.' :: rest =>
    (anywhere || g.dialect.crossSlash) &&
      match literals? rest with
      | some text => !text.contains '.' && !text.contains '/'
      | none => false
  | _ => false

/-- The glob is how a path starts. -/
def isStart (g : Glob) : Bool :=
  match g.tokens.getLast?, literals? g.tokens.dropLast with
  | some .many, some text => g.dialect.crossSlash && !text.isEmpty
  | some .inside, some _ => true
  | _, _ => false

/-- The glob is how a path ends. -/
def isEnd (g : Glob) : Bool :=
  match g.tokens with
  | .anywhere :: .many :: rest | .many :: rest =>
    g.dialect.crossSlash &&
      match literals? rest with
      | some text => text ≠ [] && text ≠ ['/']
      | none => false
  | .anywhere :: rest =>
    match literals? rest with
    | some text => !text.isEmpty
    | none => false
  | _ => false

-- ---------------------------------------------------------------------------
-- Globs that need their expressions
-- ---------------------------------------------------------------------------

/-- The token is never matched by a slash. -/
def Token.avoidsSlash (d : Dialect) : Token → Bool
  | .literal c => c ≠ '/'
  | .one | .many => !d.wild Path.slash
  | .oneOf negated ranges => !classHas negated ranges Path.slash
  | _ => false

/-- The glob is about the name of an entry, at any depth. -/
def isOfName (g : Glob) : Bool :=
  match g.tokens with
  | .anywhere :: rest => !rest.isEmpty && rest.all (Token.avoidsSlash g.dialect)
  | _ => false

/-- The tokens, last first, start with literals that make up an extension. -/
def endsInExtension : List Token → Bool
  | .literal c :: rest => c = '.' || (c ≠ '/' && endsInExtension rest)
  | _ => false

/-- How a glob is looked up. -/
inductive Lookup where
  /-- By comparing texts. -/
  | text
  /-- By its expression, on the names of entries. -/
  | name
  /-- By its expression, on paths with the extension that the glob ends in. -/
  | extension
  /-- By its expression, on all paths. -/
  | expression
  deriving DecidableEq, Repr

/-- How the glob is looked up. -/
def lookup (g : Glob) : Lookup :=
  if g.isName || g.isText || g.isExtension || g.isStart || g.isEnd then .text
  else if g.isOfName then .name
  else if endsInExtension g.tokens.reverse then .extension
  else .expression

-- ---------------------------------------------------------------------------
-- Sets that cannot be made
-- ---------------------------------------------------------------------------

/-- Why a set of globs cannot be made. -/
inductive SetError where
  /-- An expression for one extension nests too deep. -/
  | single (expression : String)
  /-- The expression with the given number, of those for all paths, nests too deep. -/
  | joint (number : Nat)
  deriving DecidableEq, Repr

def SetError.message : SetError → String
  | .single expression => "error parsing glob '" ++ expression ++ "': error parsing pattern 0"
  | .joint number => "error parsing pattern " ++ toString number

/-- Why the globs make no set. Expressions for one extension come first. -/
def setError? (globs : List Glob) : Option SetError :=
  match globs.find? fun g => g.lookup = .extension && g.isTooDeep with
  | some g => some (.single g.expressionText)
  | none =>
    ((globs.filter fun g => g.lookup = .expression).findIdx? isTooDeep).map .joint

end DocLint.Glob
