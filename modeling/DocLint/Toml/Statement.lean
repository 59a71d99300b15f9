-- SUMMARY: A TOML document as its statements: keys with values, and headers.
import DocLint.Toml.Scalar
import DocLint.Toml.Text

/-! # Statements

A document is read in two steps. This module reads its text as a list of statements;
what tables the statements make is a matter of the next step. Only tables in braces
are made here, since they are complete where they stand.
-/

namespace DocLint.Toml

/-- A key, as its parts. -/
abbrev Key := List String

/-- A line of a document. -/
inductive Statement where
  | entry (key : Key) (value : Value)
  /-- A header in brackets. -/
  | header (key : Key)
  /-- A header in double brackets. -/
  | tablesHeader (key : Key)
  deriving Repr

/-- Keys have fewer parts, and values nest less deep, than this. -/
def depthBound : Nat := 80

-- ---------------------------------------------------------------------------
-- Keys
-- ---------------------------------------------------------------------------

/-- The characters of a part of a key that has no quotation marks. -/
def isKeyChar (c : Char) : Bool :=
  c.isAlphanum || c = '_' || c = '-'

/-- Takes one part of a key. -/
def readKeyPart : Reader String
  | '"' :: rest => (readBasic rest).map fun (part, rest) => (String.ofList part, rest)
  | '\'' :: rest => (readLiteral rest).map fun (part, rest) => (String.ofList part, rest)
  | text =>
    match text.takeWhile isKeyChar with
    | [] => none
    | part => some (String.ofList part, text.dropWhile isKeyChar)

/-- Takes the parts of a key, divided by points, with blanks around each. -/
def readKeyParts : Nat → Reader Key
  | 0, _ => none
  | n + 1, text => do
    let (part, rest) ← readKeyPart (skipBlank text)
    match skipBlank rest with
    | '.' :: rest =>
      let (parts, rest) ← readKeyParts n rest
      return (part :: parts, rest)
    | rest => return ([part], rest)

def readKey : Reader Key :=
  readKeyParts (depthBound - 1)

-- ---------------------------------------------------------------------------
-- Tables in braces
-- ---------------------------------------------------------------------------

/-- Adds an entry to a table in braces. A dotted key goes through tables that dotted keys
    made, and makes those that are missing. -/
def addInline (value : Value) : Key → List (String × Value) → Option (List (String × Value))
  | [], _ => none
  | [name], entries =>
    if (entries.lookup name).isSome then none else some (entries ++ [(name, value)])
  | name :: path, entries =>
    match entries.lookup name with
    | none => (addInline value path []).map fun inner => entries ++ [(name, .table .dotted inner)]
    | some (.table .dotted inner) =>
      (addInline value path inner).map fun inner =>
        entries.map fun (n, v) => (n, if n = name then .table .dotted inner else v)
    | some _ => none

/-- The table in braces with the given entries. -/
def inlineTable? (entries : List (Key × Value)) : Option Value := do
  let made ← entries.foldlM (fun made (key, value) => addInline value key made) []
  return .table .inline made

-- ---------------------------------------------------------------------------
-- Values
-- ---------------------------------------------------------------------------

/-- Takes the elements of an array and the bracket that ends it. A comma may follow the
    last element. -/
def readElements (value : Reader Value) : Nat → Reader (List Value)
  | 0, _ => none
  | n + 1, text =>
    match skipTrivia false text with
    | ']' :: rest => some ([], rest)
    | text => do
      let (v, rest) ← value text
      match skipTrivia false rest with
      | ']' :: rest => return ([v], rest)
      | ',' :: rest =>
        let (vs, rest) ← readElements value n rest
        return (v :: vs, rest)
      | _ => none

/-- Takes a key, an equals sign and a value, with blanks around the value. -/
def readPair (value : Reader Value) : Reader (Key × Value) := fun text => do
  let (key, rest) ← readKey text
  match rest with
  | '=' :: rest =>
    let (v, rest) ← value (skipBlank rest)
    return ((key, v), skipBlank rest)
  | _ => none

/-- Takes one or more pairs divided by commas, and the brace that ends them. -/
def readPairs (value : Reader Value) : Nat → Reader (List (Key × Value))
  | 0, _ => none
  | n + 1, text => do
    let (pair, rest) ← readPair value text
    match rest with
    | '\x7d' :: rest => return ([pair], rest)
    | ',' :: rest =>
      let (pairs, rest) ← readPairs value n rest
      return (pair :: pairs, rest)
    | _ => none

/-- Takes the pairs of a table in braces and the brace that ends it. -/
def readBraces (value : Reader Value) : Reader (List (Key × Value)) := fun text =>
  match skipBlank text with
  | '\x7d' :: rest => some ([], rest)
  | _ => readPairs value (text.length + 1) text

/-- Takes a value that nests at most as deep as the given number. -/
def readValue (depth : Nat) : Reader Value := fun text =>
  match text with
  | '"' :: _ | '\'' :: _ =>
    (readString text).map fun (s, rest) => (.string (String.ofList s), rest)
  | '[' :: rest =>
    match depth with
    | 0 => none
    | depth + 1 =>
      (readElements (readValue depth) (rest.length + 1) rest).map fun (vs, rest) =>
        (.array vs, rest)
  | '\x7b' :: rest =>
    match depth with
    | 0 => none
    | depth + 1 => do
      let (pairs, rest) ← readBraces (readValue depth) rest
      return (← inlineTable? pairs, rest)
  | _ => readScalar text

-- ---------------------------------------------------------------------------
-- Documents
-- ---------------------------------------------------------------------------

/-- Takes a header, of which the opening brackets have been taken. -/
def readHeader (make : Key → Statement) (close : List Char) : Reader Statement := fun text => do
  let (key, rest) ← readKey text
  if close.isPrefixOf rest then return (make key, rest.drop close.length) else none

/-- Takes a statement, without the end of its line. -/
def readStatement : Reader Statement
  | '[' :: '[' :: rest => readHeader .tablesHeader [']', ']'] rest
  | '[' :: rest => readHeader .header [']'] rest
  | text =>
    (readPair (readValue (depthBound - 1)) text).map fun ((key, v), rest) => (.entry key v, rest)

/-- Takes the statements of a text, each on a line. -/
def readStatements : Nat → List Char → Option (List Statement)
  | 0, _ => none
  | n + 1, text =>
    match skipBlank text with
    | [] => some []
    | '#' :: rest => (takeLineEnd? ('#' :: rest)).bind (readStatements n)
    | '\n' :: rest => readStatements n rest
    | '\r' :: rest => (takeNewline? ('\r' :: rest)).bind (readStatements n)
    | text => do
      let (s, rest) ← readStatement text
      let rest ← takeLineEnd? rest
      return s :: (← readStatements n rest)

def dropMark : List Char → List Char
  | '\ufeff' :: rest => rest
  | text => text

/-- The statements of a document. -/
def statements? (text : List Char) : Option (List Statement) :=
  readStatements (text.length + 1) (dropMark text)

end DocLint.Toml
