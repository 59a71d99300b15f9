-- SUMMARY: Text in quotation marks for messages, with escapes for what cannot be seen as it is.
import DocLint.Text.GraphemeExtend
import DocLint.Text.Unprintable

/-! # Quoted text -/

namespace DocLint.Text

/-- The escape that names a character by its code. -/
def codeEscape (c : Char) : List Char :=
  '\\' :: 'u' :: '\x7b' :: (Nat.toDigits 16 c.toNat ++ ['\x7d'])

/-- The character is a sound mark of half width. These two extend the character before
    them and can be seen on their own. -/
def isSoundMark (c : Char) : Bool :=
  c = '\uff9e' || c = '\uff9f'

/-- How a character is shown in quotation marks. -/
def quoteChar (c : Char) : List Char :=
  if c = '"' ∨ c = '\\' then ['\\', c]
  else if c = '\n' then ['\\', 'n']
  else if c = '\r' then ['\\', 'r']
  else if c = '\t' then ['\\', 't']
  else if c = '\x00' then ['\\', '0']
  else if (isGraphemeExtend c && !isSoundMark c) || isUnprintable c then codeEscape c
  else [c]

def quoted (text : String) : String :=
  String.ofList ('"' :: (text.toList.flatMap quoteChar ++ ['"']))

end DocLint.Text
