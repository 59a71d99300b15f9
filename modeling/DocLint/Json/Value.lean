-- SUMMARY: JSON values as they are written, and their compact text.

/-! # JSON values

A string literal may hold an escape for half of a surrogate pair that has no other
half. Such a literal is well formed but denotes no text, so a string is kept as its
items, and its text is asked for separately. A number is kept as it is written.
-/

namespace DocLint.Json

-- ---------------------------------------------------------------------------
-- Strings
-- ---------------------------------------------------------------------------

/-- One item of a string literal. -/
inductive Item where
  /-- A character, written as itself or as an escape. -/
  | char (c : Char)
  /-- An escape for half of a surrogate pair, by its code. -/
  | half (code : Nat)
  deriving DecidableEq, Repr

namespace Item

/-- What the code of a four-digit escape stands for. -/
def ofCode (code : Nat) : Item :=
  if 0xD800 ≤ code ∧ code < 0xE000 then .half code else .char (Char.ofNat code)

/-- The character of a surrogate pair. -/
def pair? (high low : Nat) : Option Char :=
  if 0xD800 ≤ high ∧ high < 0xDC00 ∧ 0xDC00 ≤ low ∧ low < 0xE000 then
    some (Char.ofNat (0x10000 + (high - 0xD800) * 0x400 + (low - 0xDC00)))
  else none

/-- The text that the items denote, if every half has its other half. -/
def text? : List Item → Option (List Char)
  | [] => some []
  | .char c :: rest => (text? rest).map (c :: ·)
  | .half high :: .half low :: rest =>
    match pair? high low with
    | some c => (text? rest).map (c :: ·)
    | none => none
  | .half _ :: _ => none

end Item

-- ---------------------------------------------------------------------------
-- Values
-- ---------------------------------------------------------------------------

/-- A JSON value. An object keeps its entries in the order they are written. -/
inductive Value where
  | null
  | bool (b : Bool)
  | number (literal : List Char)
  | string (items : List Item)
  | array (elements : List Value)
  | object (entries : List (List Item × Value))
  deriving Repr

namespace Value

/-- The string of a text. -/
def ofText (text : String) : Value :=
  .string (text.toList.map .char)

/-- The number of a count. -/
def ofNat (n : Nat) : Value :=
  .number (Nat.toDigits 10 n)

/-- The object with the given entries. -/
def ofFields (fields : List (String × Value)) : Value :=
  .object (fields.map fun (key, value) => (key.toList.map .char, value))

def text? : Value → Option String
  | .string items => (Item.text? items).map String.ofList
  | _ => none

def digit? (c : Char) : Option Nat :=
  if '0' ≤ c ∧ c ≤ '9' then some (c.toNat - '0'.toNat) else none

/-- The number that a sequence of digits denotes. -/
def natOfDigits? (digits : List Char) : Option Nat :=
  digits.foldl (fun n c => do return (← n) * 10 + (← digit? c)) (some 0)

/-- The count that a number is, if it is written with digits only and is below `bound`. -/
def natBelow? (bound : Nat) : Value → Option Nat
  | .number literal => (natOfDigits? literal).filter (· < bound)
  | _ => none

end Value

-- ---------------------------------------------------------------------------
-- Writing
-- ---------------------------------------------------------------------------

/-- The digit of a number below sixteen, in lower case. -/
def hexDigit (n : Nat) : Char :=
  if n < 10 then Char.ofNat ('0'.toNat + n) else Char.ofNat ('a'.toNat + (n - 10))

/-- The four-digit escape of a code. -/
def unicodeEscape (code : Nat) : List Char :=
  ['\\', 'u', hexDigit (code / 4096 % 16), hexDigit (code / 256 % 16), hexDigit (code / 16 % 16),
   hexDigit (code % 16)]

/-- How a character is written inside a string: quotation marks, backslashes and the
    characters below U+0020 are escaped, all others stand for themselves. -/
def escapeChar (c : Char) : List Char :=
  if c = '"' then ['\\', '"']
  else if c = '\\' then ['\\', '\\']
  else if c = '\x08' then ['\\', 'b']
  else if c = '\t' then ['\\', 't']
  else if c = '\n' then ['\\', 'n']
  else if c = '\x0c' then ['\\', 'f']
  else if c = '\r' then ['\\', 'r']
  else if c.toNat < 0x20 then unicodeEscape c.toNat
  else [c]

/-- How an item is written inside a string. -/
def Item.write : Item → List Char
  | .char c => escapeChar c
  | .half code => unicodeEscape code

def writeString (items : List Item) : List Char :=
  '"' :: (items.flatMap Item.write ++ ['"'])

mutual

/-- The compact text of a value. -/
def Value.write : Value → List Char
  | .null => ['n', 'u', 'l', 'l']
  | .bool true => ['t', 'r', 'u', 'e']
  | .bool false => ['f', 'a', 'l', 's', 'e']
  | .number literal => literal
  | .string items => writeString items
  | .array elements => '[' :: (writeElements elements ++ [']'])
  | .object entries => '\x7b' :: (writeEntries entries ++ ['\x7d'])

/-- The elements of an array, divided by commas. -/
def writeElements : List Value → List Char
  | [] => []
  | [v] => v.write
  | v :: w :: rest => v.write ++ ',' :: writeElements (w :: rest)

def writeEntries : List (List Item × Value) → List Char
  | [] => []
  | [(key, v)] => writeString key ++ ':' :: v.write
  | (key, v) :: e :: rest => writeString key ++ ':' :: (v.write ++ ',' :: writeEntries (e :: rest))

end

/-- The compact text of a value, as a string. -/
def Value.render (v : Value) : String :=
  String.ofList v.write

end DocLint.Json
