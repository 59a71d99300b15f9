-- SUMMARY: The values that are written without quotation marks or brackets: booleans, numbers, dates and times.
import DocLint.Toml.Value

/-! # Bare values

A bare value is a word of letters, digits and the signs `_ + - . :`. The word as a
whole decides what it is.
-/

namespace DocLint.Toml

-- ---------------------------------------------------------------------------
-- Digits
-- ---------------------------------------------------------------------------

/-- The value of a digit of a base up to sixteen, in either case. -/
def digitValue? (base : Nat) (c : Char) : Option Nat :=
  let value :=
    if '0' ≤ c ∧ c ≤ '9' then c.toNat - '0'.toNat
    else if 'a' ≤ c ∧ c ≤ 'f' then c.toNat - 'a'.toNat + 10
    else if 'A' ≤ c ∧ c ≤ 'F' then c.toNat - 'A'.toNat + 10
    else base
  if value < base then some value else none

def isDigit (c : Char) : Bool :=
  (digitValue? 10 c).isSome

/-- The values of one or more digits, where single underscores may stand between two. -/
def digits? (base : Nat) : List Char → Option (List Nat)
  | [] => none
  | [c] => (digitValue? base c).map ([·])
  | c :: '_' :: rest => do return (← digitValue? base c) :: (← digits? base rest)
  | c :: rest => do return (← digitValue? base c) :: (← digits? base rest)

def ofDigits (base : Nat) (digits : List Nat) : Nat :=
  digits.foldl (fun n d => n * base + d) 0

/-- The digits of a whole number, which starts with a zero only if it is one. -/
def wholeDigits? (text : List Char) : Option (List Nat) :=
  (digits? 10 text).filter fun digits => digits.head? ≠ some 0 || digits.length = 1

/-- Takes off a sign, and says whether it is a minus. -/
def readSign : List Char → Bool × List Char
  | '+' :: rest => (false, rest)
  | '-' :: rest => (true, rest)
  | text => (false, text)

-- ---------------------------------------------------------------------------
-- Numbers
-- ---------------------------------------------------------------------------

/-- One more than the greatest integer. -/
def integerBound : Int := Nat.pow 2 63

/-- The integer that a word is. Integers have sixty-four bits. -/
def integer? (word : List Char) : Option Int :=
  let value : Option Int :=
    match word with
    | '0' :: 'x' :: rest => (digits? 16 rest).map fun ds => ofDigits 16 ds
    | '0' :: 'o' :: rest => (digits? 8 rest).map fun ds => ofDigits 8 ds
    | '0' :: 'b' :: rest => (digits? 2 rest).map fun ds => ofDigits 2 ds
    | _ =>
      let (negative, body) := readSign word
      (wholeDigits? body).map fun ds =>
        if negative then -(ofDigits 10 ds : Int) else (ofDigits 10 ds : Int)
  value.filter fun n => -integerBound ≤ n && n < integerBound

/-- The exponent that stands after the mark `e`; a missing mark is the exponent zero. -/
def exponent? : List Char → Option Int
  | [] => some 0
  | _ :: text =>
    let (negative, body) := readSign text
    (digits? 10 body).map fun ds =>
      if negative then -(ofDigits 10 ds : Int) else (ofDigits 10 ds : Int)

/-- The digits that stand after the point; a missing point has none. -/
def fraction? : List Char → Option (List Nat)
  | [] => some []
  | _ :: text => digits? 10 text

def isExponentMark (c : Char) : Bool :=
  c = 'e' || c = 'E'

/-- The finite decimal that a word is: a whole part, and a fraction or an exponent or
    both. One that is too large is refused. -/
def decimal? (word : List Char) : Option Binary64 := do
  let (negative, body) := readSign word
  let mantissa := body.takeWhile fun c => !isExponentMark c
  let exponentText := body.dropWhile fun c => !isExponentMark c
  let wholeText := mantissa.takeWhile (· ≠ '.')
  let fractionText := mantissa.dropWhile (· ≠ '.')
  if exponentText.isEmpty && fractionText.isEmpty then none
  let whole ← wholeDigits? wholeText
  let fraction ← fraction? fractionText
  let exponent ← exponent? exponentText
  let digits := ofDigits 10 (whole ++ fraction)
  let x := Binary64.ofDecimal negative digits (exponent - fraction.length)
  if x = .infinite false then none else return x

/-- The floating point number that a word is. -/
def float? (word : List Char) : Option Binary64 :=
  let (negative, body) := readSign word
  if body = ['i', 'n', 'f'] then some (.infinite negative)
  else if body = ['n', 'a', 'n'] then some .nan
  else decimal? word

-- ---------------------------------------------------------------------------
-- Dates and times
-- ---------------------------------------------------------------------------

/-- The number of two digits, if it is at most the given one. -/
def twoDigits? (a b : Char) (most : Nat) : Option Nat := do
  let n := (← digitValue? 10 a) * 10 + (← digitValue? 10 b)
  if n ≤ most then return n else none

def daysInMonth (year month : Nat) : Nat :=
  if month = 2 then
    if year % 4 = 0 ∧ (year % 100 ≠ 0 ∨ year % 400 = 0) then 29 else 28
  else if month = 4 ∨ month = 6 ∨ month = 9 ∨ month = 11 then 30
  else 31

/-- Takes a date that exists, and returns the rest. -/
def takeDate? : List Char → Option (List Char)
  | y1 :: y2 :: y3 :: y4 :: '-' :: m1 :: m2 :: '-' :: d1 :: d2 :: rest => do
    let century ← twoDigits? y1 y2 99
    let year := century * 100 + (← twoDigits? y3 y4 99)
    let month ← twoDigits? m1 m2 12
    let day ← twoDigits? d1 d2 31
    if 1 ≤ month ∧ 1 ≤ day ∧ day ≤ daysInMonth year month then return rest else none
  | _ => none

/-- Takes the fraction of a second, which may be missing. -/
def takeSecondFraction? : List Char → Option (List Char)
  | '.' :: c :: rest => if isDigit c then some (rest.dropWhile isDigit) else none
  | '.' :: [] => none
  | text => some text

/-- Takes a time with seconds, and returns the rest. A minute may have a leap second. -/
def takeTime? : List Char → Option (List Char)
  | h1 :: h2 :: ':' :: m1 :: m2 :: ':' :: s1 :: s2 :: rest => do
    let _ ← twoDigits? h1 h2 23
    let _ ← twoDigits? m1 m2 59
    let _ ← twoDigits? s1 s2 60
    takeSecondFraction? rest
  | _ => none

/-- The rest of a date and time is an offset, or nothing. -/
def isOffset : List Char → Bool
  | [] => true
  | ['Z'] | ['z'] => true
  | [sign, h1, h2, ':', m1, m2] =>
    (sign = '+' || sign = '-') && (twoDigits? h1 h2 23).isSome && (twoDigits? m1 m2 59).isSome
  | _ => false

/-- The text is a date, a time, or both with a letter or a space between them. Only both
    together may have an offset. -/
def isDateTime (text : List Char) : Bool :=
  match takeDate? text with
  | some [] => true
  | some (d :: rest) =>
    (d = 'T' || d = 't' || d = ' ') &&
      (match takeTime? rest with
        | some rest => isOffset rest
        | none => false)
  | none => takeTime? text = some []

-- ---------------------------------------------------------------------------
-- Words
-- ---------------------------------------------------------------------------

/-- The characters of a bare value. -/
def isBareChar (c : Char) : Bool :=
  c.isAlphanum || c = '_' || c = '+' || c = '-' || c = '.' || c = ':'

/-- The value that a word is. -/
def scalar? (word : List Char) : Option Value :=
  if word = "true".toList then some (.boolean true)
  else if word = "false".toList then some (.boolean false)
  else if isDateTime word then some (.dateTime (String.ofList word))
  else
    match integer? word with
    | some n => some (.integer n)
    | none => (float? word).map .float

/-- Takes a bare value. A time may follow a date after a space. -/
def readScalar (text : List Char) : Option (Value × List Char) :=
  let word := text.takeWhile isBareChar
  let rest := text.dropWhile isBareChar
  match rest with
  | ' ' :: c :: more =>
    if takeDate? word = some [] ∧ isDigit c then
      let time := (c :: more).takeWhile isBareChar
      (scalar? (word ++ ' ' :: time)).map fun v => (v, (c :: more).dropWhile isBareChar)
    else (scalar? word).map fun v => (v, rest)
  | _ => (scalar? word).map fun v => (v, rest)

end DocLint.Toml
