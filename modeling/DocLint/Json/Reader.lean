-- SUMMARY: Reading JSON: strict, with nothing but blanks before and after the value.
import DocLint.Json.Value

/-! # Reading JSON

Every reader takes its part off the front of a text and returns the rest. Values nest
as deep as the text is long, so the length of the text bounds the recursion.
-/

namespace DocLint.Json

/-- Takes something off the front of a text. -/
abbrev Reader (α : Type) := List Char → Option (α × List Char)

-- ---------------------------------------------------------------------------
-- Blanks, words and numbers
-- ---------------------------------------------------------------------------

/-- The characters that may stand between the parts of a value. -/
def isBlank (c : Char) : Bool :=
  c = ' ' || c = '\t' || c = '\n' || c = '\r'

def skipBlank (text : List Char) : List Char :=
  text.dropWhile isBlank

def isDigit (c : Char) : Bool :=
  '0' ≤ c && c ≤ '9'

/-- The value of a digit of base sixteen, in either case. -/
def hexValue? (c : Char) : Option Nat :=
  if '0' ≤ c ∧ c ≤ '9' then some (c.toNat - '0'.toNat)
  else if 'a' ≤ c ∧ c ≤ 'f' then some (c.toNat - 'a'.toNat + 10)
  else if 'A' ≤ c ∧ c ≤ 'F' then some (c.toNat - 'A'.toNat + 10)
  else none

def readWord (word : String) (value : Value) : Reader Value := fun text =>
  if word.toList.isPrefixOf text then some (value, text.drop word.length) else none

def readDigits : Reader (List Char) := fun text =>
  match text.takeWhile isDigit with
  | [] => none
  | digits => some (digits, text.dropWhile isDigit)

/-- Takes the whole part of a number: a zero, or digits that do not start with one. -/
def readWhole : Reader (List Char)
  | '0' :: rest => some (['0'], rest)
  | text => readDigits text

/-- Takes the fraction of a number, which may be missing. -/
def readFraction : Reader (List Char)
  | '.' :: rest => (readDigits rest).map fun (digits, rest) => ('.' :: digits, rest)
  | text => some ([], text)

/-- Takes the sign of an exponent, which may be missing. -/
def readSign : List Char → List Char × List Char
  | '+' :: rest => (['+'], rest)
  | '-' :: rest => (['-'], rest)
  | text => ([], text)

/-- Takes the exponent of a number, which may be missing. -/
def readExponent : Reader (List Char)
  | c :: rest =>
    if c = 'e' ∨ c = 'E' then
      let (sign, rest) := readSign rest
      (readDigits rest).map fun (digits, rest) => (c :: (sign ++ digits), rest)
    else some ([], c :: rest)
  | [] => some ([], [])

/-- Takes a number without its sign. -/
def readUnsigned : Reader (List Char) := fun text => do
  let (whole, rest) ← readWhole text
  let (fraction, rest) ← readFraction rest
  let (exponent, rest) ← readExponent rest
  return (whole ++ fraction ++ exponent, rest)

def readNumber : Reader Value
  | '-' :: rest => (readUnsigned rest).map fun (literal, rest) => (.number ('-' :: literal), rest)
  | text => (readUnsigned text).map fun (literal, rest) => (.number literal, rest)

-- ---------------------------------------------------------------------------
-- Strings
-- ---------------------------------------------------------------------------

/-- The character of an escape of one letter. -/
def simpleEscape? (c : Char) : Option Char :=
  if c = '"' ∨ c = '\\' ∨ c = '/' then some c
  else if c = 'b' then some '\x08'
  else if c = 'f' then some '\x0c'
  else if c = 'n' then some '\n'
  else if c = 'r' then some '\r'
  else if c = 't' then some '\t'
  else none

/-- The code of four digits. -/
def code? (a b c d : Char) : Option Nat := do
  return (← hexValue? a) * 4096 + (← hexValue? b) * 256 + (← hexValue? c) * 16 + (← hexValue? d)

/-- Takes the items of a string and the quotation mark that ends it. -/
def readItems : Reader (List Item)
  | '"' :: rest => some ([], rest)
  | '\\' :: 'u' :: a :: b :: c :: d :: rest => do
    let code ← code? a b c d
    let (items, rest) ← readItems rest
    return (.ofCode code :: items, rest)
  | '\\' :: e :: rest => do
    let c ← simpleEscape? e
    let (items, rest) ← readItems rest
    return (.char c :: items, rest)
  | c :: rest =>
    if c.toNat < 0x20 ∨ c = '\\' then none
    else (readItems rest).map fun (items, rest) => (.char c :: items, rest)
  | [] => none

-- ---------------------------------------------------------------------------
-- Values
-- ---------------------------------------------------------------------------

variable {α : Type}

/-- Takes one or more parts divided by commas, and the character that ends them. -/
def readParts (part : Reader α) (close : Char) : Nat → Reader (List α)
  | 0, _ => none
  | n + 1, text => do
    let (a, rest) ← part (skipBlank text)
    match skipBlank rest with
    | [] => none
    | c :: rest =>
      if c = close then return ([a], rest)
      else if c = ',' then
        let (as, rest) ← readParts part close n rest
        return (a :: as, rest)
      else none

/-- Takes the parts of an array or object after its opening bracket. -/
def readClosed (part : Reader α) (close : Char) : Reader (List α) := fun text =>
  match skipBlank text with
  | [] => none
  | c :: rest => if c = close then some ([], rest) else readParts part close (text.length + 1) text

/-- Takes a key, a colon and a value. -/
def readEntry (value : Reader Value) : Reader (List Item × Value)
  | '"' :: rest => do
    let (key, rest) ← readItems rest
    match skipBlank rest with
    | ':' :: rest =>
      let (v, rest) ← value (skipBlank rest)
      return ((key, v), rest)
    | _ => none
  | _ => none

/-- Takes a value that nests at most as deep as the given number. -/
def readValue : Nat → Reader Value
  | 0, _ => none
  | depth + 1, text =>
    match text with
    | '"' :: rest => (readItems rest).map fun (items, rest) => (.string items, rest)
    | '[' :: rest =>
      (readClosed (readValue depth) ']' rest).map fun (elements, rest) => (.array elements, rest)
    | '\x7b' :: rest =>
      (readClosed (readEntry (readValue depth)) '\x7d' rest).map
        fun (entries, rest) => (.object entries, rest)
    | 'n' :: _ => readWord "null" .null text
    | 't' :: _ => readWord "true" (.bool true) text
    | 'f' :: _ => readWord "false" (.bool false) text
    | _ => readNumber text

/-- The value that a text holds, if it holds exactly one. -/
def parse? (text : List Char) : Option Value := do
  let (value, rest) ← readValue (text.length + 1) (skipBlank text)
  if (skipBlank rest).isEmpty then return value else none

end DocLint.Json
