-- SUMMARY: Blanks, comments and the four kinds of strings of TOML.

/-! # Blanks and strings

All readers take their part off the front of a text and return the rest. A newline is
a line feed with or without a carriage return before it; a carriage return that
stands alone is nowhere allowed.
-/

namespace DocLint.Toml

/-- Takes something off the front of a text. -/
abbrev Reader (α : Type) := List Char → Option (α × List Char)

-- ---------------------------------------------------------------------------
-- Blanks
-- ---------------------------------------------------------------------------

/-- A space or a tab. -/
def isBlank (c : Char) : Bool :=
  c = ' ' || c = '\t'

def skipBlank (text : List Char) : List Char :=
  text.dropWhile isBlank

/-- The characters that may stand in a comment or in a string: all but controls, and the
    tab. -/
def isTextChar (c : Char) : Bool :=
  c = '\t' || (0x20 ≤ c.toNat && c.toNat ≠ 0x7F)

def takeNewline? : List Char → Option (List Char)
  | '\n' :: rest => some rest
  | '\r' :: '\n' :: rest => some rest
  | _ => none

/-- Takes what may stand at the end of a line: blanks, a comment, and a newline or the
    end of the text. -/
def takeLineEnd? (text : List Char) : Option (List Char) :=
  let rest :=
    match skipBlank text with
    | '#' :: rest => rest.dropWhile isTextChar
    | rest => rest
  if rest.isEmpty then some [] else takeNewline? rest

def skipTrivia (inComment : Bool) : List Char → List Char
  | [] => []
  | '\n' :: rest => skipTrivia false rest
  | '\r' :: '\n' :: rest => skipTrivia false rest
  | c :: rest =>
    if inComment then if isTextChar c then skipTrivia true rest else c :: rest
    else if isBlank c then skipTrivia false rest
    else if c = '#' then skipTrivia true rest
    else c :: rest

-- ---------------------------------------------------------------------------
-- Escapes
-- ---------------------------------------------------------------------------

/-- The value of a digit of base sixteen. -/
def hexDigit? (c : Char) : Option Nat :=
  if '0' ≤ c ∧ c ≤ '9' then some (c.toNat - '0'.toNat)
  else if 'a' ≤ c ∧ c ≤ 'f' then some (c.toNat - 'a'.toNat + 10)
  else if 'A' ≤ c ∧ c ≤ 'F' then some (c.toNat - 'A'.toNat + 10)
  else none

/-- The character whose code is written in digits of base sixteen. -/
def charOfHex? (digits : List Char) : Option Char := do
  let code ← digits.foldlM (fun n c => (hexDigit? c).map (n * 16 + ·)) 0
  if code.isValidChar then return Char.ofNat code else none

def simpleEscape? (c : Char) : Option Char :=
  if c = '"' ∨ c = '\\' then some c
  else if c = 'b' then some '\x08'
  else if c = 't' then some '\t'
  else if c = 'n' then some '\n'
  else if c = 'f' then some '\x0c'
  else if c = 'r' then some '\r'
  else none

-- ---------------------------------------------------------------------------
-- Strings
-- ---------------------------------------------------------------------------

/-- Takes the body of a string in double quotation marks, and the mark that ends it. -/
def readBasic : Reader (List Char)
  | [] => none
  | '"' :: rest => some ([], rest)
  | '\\' :: 'u' :: a :: b :: c :: d :: rest => do
    let x ← charOfHex? [a, b, c, d]
    let (xs, rest) ← readBasic rest
    return (x :: xs, rest)
  | '\\' :: 'U' :: a :: b :: c :: d :: e :: f :: g :: h :: rest => do
    let x ← charOfHex? [a, b, c, d, e, f, g, h]
    let (xs, rest) ← readBasic rest
    return (x :: xs, rest)
  | '\\' :: e :: rest => do
    let x ← simpleEscape? e
    let (xs, rest) ← readBasic rest
    return (x :: xs, rest)
  | c :: rest =>
    if isTextChar c && c ≠ '\\' then (readBasic rest).map fun (xs, rest) => (c :: xs, rest)
    else none

/-- Takes the body of a string in single quotation marks, and the mark that ends it. -/
def readLiteral : Reader (List Char)
  | [] => none
  | '\'' :: rest => some ([], rest)
  | c :: rest =>
    if isTextChar c then (readLiteral rest).map fun (xs, rest) => (c :: xs, rest) else none

/-- A backslash at the end of a line: only blanks stand between it and a newline. -/
def endsLine (text : List Char) : Bool :=
  (takeNewline? (skipBlank text)).isSome

/-- Takes the body of a string of several lines in double quotation marks, and the three
    marks that end it. Up to two marks may stand right before those. After a backslash
    at the end of a line, blanks and newlines are dropped. -/
def readBasicLines (dropping : Bool) : Reader (List Char)
  | [] => none
  | '"' :: '"' :: '"' :: '"' :: '"' :: rest => some (['"', '"'], rest)
  | '"' :: '"' :: '"' :: '"' :: rest => some (['"'], rest)
  | '"' :: '"' :: '"' :: rest => some ([], rest)
  | '\n' :: rest =>
    if dropping then readBasicLines true rest
    else (readBasicLines false rest).map fun (xs, rest) => ('\n' :: xs, rest)
  | '\r' :: '\n' :: rest =>
    if dropping then readBasicLines true rest
    else (readBasicLines false rest).map fun (xs, rest) => ('\n' :: xs, rest)
  | '\\' :: 'u' :: a :: b :: c :: d :: rest => do
    let x ← charOfHex? [a, b, c, d]
    let (xs, rest) ← readBasicLines false rest
    return (x :: xs, rest)
  | '\\' :: 'U' :: a :: b :: c :: d :: e :: f :: g :: h :: rest => do
    let x ← charOfHex? [a, b, c, d, e, f, g, h]
    let (xs, rest) ← readBasicLines false rest
    return (x :: xs, rest)
  | '\\' :: e :: rest =>
    if endsLine (e :: rest) then readBasicLines true rest
    else do
      let x ← simpleEscape? e
      let (xs, rest) ← readBasicLines false rest
      return (x :: xs, rest)
  | c :: rest =>
    if dropping && isBlank c then readBasicLines true rest
    else if isTextChar c && c ≠ '\\' then
      (readBasicLines false rest).map fun (xs, rest) => (c :: xs, rest)
    else none

/-- Takes the body of a string of several lines in single quotation marks, and the three
    marks that end it. -/
def readLiteralLines : Reader (List Char)
  | [] => none
  | '\'' :: '\'' :: '\'' :: '\'' :: '\'' :: rest => some (['\'', '\''], rest)
  | '\'' :: '\'' :: '\'' :: '\'' :: rest => some (['\''], rest)
  | '\'' :: '\'' :: '\'' :: rest => some ([], rest)
  | '\r' :: '\n' :: rest => (readLiteralLines rest).map fun (xs, rest) => ('\n' :: xs, rest)
  | c :: rest =>
    if isTextChar c || c = '\n' then
      (readLiteralLines rest).map fun (xs, rest) => (c :: xs, rest)
    else none

/-- Drops a newline right after the marks that start a string of several lines. -/
def skipFirstNewline (text : List Char) : List Char :=
  (takeNewline? text).getD text

def readString : Reader (List Char)
  | '"' :: '"' :: '"' :: rest => readBasicLines false (skipFirstNewline rest)
  | '"' :: rest => readBasic rest
  | '\'' :: '\'' :: '\'' :: rest => readLiteralLines (skipFirstNewline rest)
  | '\'' :: rest => readLiteral rest
  | _ => none

end DocLint.Toml
