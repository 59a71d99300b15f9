-- SUMMARY: UTF-8: encoding of characters, strict decoding, and decoding that puts U+FFFD for each damaged part.

/-! # UTF-8

The decoder is a machine that reads one byte at a time. Between two characters it is
ready; inside a character it knows which bytes may follow. A byte that may not
follow ends a damaged part, and is then read as the first byte of something new, so
a damaged part is the longest one that could still have become a character.
-/

namespace DocLint

/-- A sequence of bytes. -/
abbrev Bytes := List UInt8

namespace Text.Utf8

-- ---------------------------------------------------------------------------
-- Encoding
-- ---------------------------------------------------------------------------

def encodeChar (c : Char) : Bytes :=
  let n := c.toNat
  if n < 0x80 then [n.toUInt8]
  else if n < 0x800 then [(0xC0 + n / 64).toUInt8, (0x80 + n % 64).toUInt8]
  else if n < 0x10000 then
    [(0xE0 + n / 4096).toUInt8, (0x80 + n / 64 % 64).toUInt8, (0x80 + n % 64).toUInt8]
  else
    [(0xF0 + n / 262144).toUInt8, (0x80 + n / 4096 % 64).toUInt8, (0x80 + n / 64 % 64).toUInt8,
     (0x80 + n % 64).toUInt8]

def encode (text : List Char) : Bytes :=
  text.flatMap encodeChar

@[simp] theorem encode_nil : encode [] = [] := rfl

@[simp] theorem encode_append (s t : List Char) : encode (s ++ t) = encode s ++ encode t := by
  simp [encode]

-- ---------------------------------------------------------------------------
-- The decoding machine
-- ---------------------------------------------------------------------------

/-- A character of which some bytes have been read. -/
structure Unfinished where
  /-- The bits read so far. -/
  value : Nat
  /-- How many bytes are still to come. -/
  missing : Nat
  /-- The least byte that may come next. -/
  lo : Nat
  /-- The greatest byte that may come next. -/
  hi : Nat
  deriving Repr, DecidableEq

/-- What reading a byte yields, and the state that follows: `none` is the state
    between two characters. In what is yielded, `none` is a damaged part. -/
abbrev Step := List (Option Char) × Option Unfinished

/-- Reads the first byte of a character. -/
def start (b : UInt8) : Step :=
  let n := b.toNat
  if n < 0x80 then ([some (Char.ofNat n)], none)
  else if n < 0xC2 then ([none], none)
  else if n < 0xE0 then ([], some ⟨n - 0xC0, 1, 0x80, 0xBF⟩)
  else if n = 0xE0 then ([], some ⟨0, 2, 0xA0, 0xBF⟩)
  else if n = 0xED then ([], some ⟨0xD, 2, 0x80, 0x9F⟩)
  else if n < 0xF0 then ([], some ⟨n - 0xE0, 2, 0x80, 0xBF⟩)
  else if n = 0xF0 then ([], some ⟨0, 3, 0x90, 0xBF⟩)
  else if n < 0xF4 then ([], some ⟨n - 0xF0, 3, 0x80, 0xBF⟩)
  else if n = 0xF4 then ([], some ⟨4, 3, 0x80, 0x8F⟩)
  else ([none], none)

/-- The byte may come next. -/
def Unfinished.accepts (u : Unfinished) (b : UInt8) : Bool :=
  u.lo ≤ b.toNat && b.toNat ≤ u.hi

/-- Reads a further byte that may come next. -/
def Unfinished.next (u : Unfinished) (b : UInt8) : Step :=
  let value := u.value * 64 + (b.toNat - 0x80)
  if u.missing ≤ 1 then ([some (Char.ofNat value)], none)
  else ([], some ⟨value, u.missing - 1, 0x80, 0xBF⟩)

/-- Everything that a sequence of bytes yields. -/
def scan : Option Unfinished → Bytes → List (Option Char)
  | none, [] => []
  | some _, [] => [none]
  | none, b :: rest => (start b).1 ++ scan (start b).2 rest
  | some u, b :: rest =>
    if u.accepts b then (u.next b).1 ++ scan (u.next b).2 rest
    else none :: ((start b).1 ++ scan (start b).2 rest)

-- ---------------------------------------------------------------------------
-- Decoding
-- ---------------------------------------------------------------------------

/-- The text that the bytes encode, if they encode one. -/
def decode? (bytes : Bytes) : Option (List Char) :=
  (scan none bytes).mapM id

/-- The text that the bytes encode, with U+FFFD for each damaged part. -/
def lossy (bytes : Bytes) : List Char :=
  (scan none bytes).map (·.getD '\ufffd')

@[simp] theorem decode?_nil : decode? [] = some [] := rfl

@[simp] theorem lossy_nil : lossy [] = [] := rfl

end Text.Utf8

end DocLint
