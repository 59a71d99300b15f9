-- SUMMARY: Which byte sequences a glob matches, by the places in the text that its tokens reach.
import DocLint.Glob.Parser

/-! # Matching globs

A text of `n` bytes has `n + 1` places: one before each byte, and the end. A token leads
from some places to others. Matching follows all places at once: it starts with the
first place marked and ends, if the pattern matches, with a mark on the last one. Each
token is one or more passes over the text, so the time is the length of the pattern
times the length of the text.
-/

namespace DocLint.Glob

-- ---------------------------------------------------------------------------
-- Places
-- ---------------------------------------------------------------------------

/-- Which places of a text are reached, from the first one to the end. -/
abbrev Marks := List Bool

/-- The first place of a text. -/
def Marks.atStart (text : Bytes) : Marks :=
  true :: text.map fun _ => false

/-- The places reached by taking one byte that is allowed. -/
def Marks.step (allowed : UInt8 → Bool) (text : Bytes) (marks : Marks) : Marks :=
  false :: List.zipWith (fun mark b => mark && allowed b) marks text

/-- The places reached by taking any number of bytes that are allowed, where `reached`
    says whether the first place is reached from before it. -/
def Marks.spread (allowed : UInt8 → Bool) (reached : Bool) : Bytes → Marks → Marks
  | _, [] => []
  | [], mark :: _ => [reached || mark]
  | b :: text, mark :: marks =>
    (reached || mark) :: spread allowed ((reached || mark) && allowed b) text marks

/-- The places that are in one of two sets. -/
def Marks.union (marks others : Marks) : Marks :=
  List.zipWith (· || ·) marks others

def Marks.none (text : Bytes) : Marks :=
  false :: text.map fun _ => false

/-- The places reached by taking any bytes. -/
def Marks.anyBytes (text : Bytes) (marks : Marks) : Marks :=
  marks.spread (fun _ => true) false text

def Marks.slash (text : Bytes) (marks : Marks) : Marks :=
  marks.step (· = Path.slash) text

-- ---------------------------------------------------------------------------
-- Classes
-- ---------------------------------------------------------------------------

/-- The ranges of bytes that a range of characters stands for: the bytes of both ends in
    a row, with a range from the last byte of the lower to the first of the upper end. -/
def byteRanges (range : Char × Char) : List (UInt8 × UInt8) :=
  if range.1 = range.2 then (Text.Utf8.encodeChar range.1).map fun b => (b, b)
  else
    let lower := Text.Utf8.encodeChar range.1
    let upper := Text.Utf8.encodeChar range.2
    lower.dropLast.map (fun b => (b, b)) ++ [(lower.getLastD 0, upper.headD 0)] ++
      (upper.drop 1).map fun b => (b, b)

def classHas (negated : Bool) (ranges : List (Char × Char)) (b : UInt8) : Bool :=
  ((ranges.flatMap byteRanges).any fun (lo, hi) => lo ≤ b && b ≤ hi) != negated

-- ---------------------------------------------------------------------------
-- Tokens
-- ---------------------------------------------------------------------------

mutual

/-- The token describes nothing at all: alternatives of which every branch is such. -/
def Token.isVoid : Token → Bool
  | .alternatives branches => allVoid branches
  | _ => false

/-- Every token of a branch describes nothing. -/
def branchVoid : List Token → Bool
  | [] => true
  | t :: ts => t.isVoid && branchVoid ts

/-- Every branch describes nothing. -/
def allVoid : List (List Token) → Bool
  | [] => true
  | b :: bs => branchVoid b && allVoid bs

end

/-- The wildcards `?` and `*` match the byte. -/
def Dialect.wild (d : Dialect) (b : UInt8) : Bool :=
  d.crossSlash || b ≠ Path.slash

mutual

/-- The places that a token leads to. -/
def Token.reach (d : Dialect) (text : Bytes) (t : Token) (marks : Marks) : Marks :=
  match t with
  | .literal c =>
    (Text.Utf8.encodeChar c).foldl (fun marks b => marks.step (· = b) text) marks
  | .one => marks.step d.wild text
  | .many => marks.spread d.wild false text
  | .anywhere => marks.union ((marks.anyBytes text).slash text)
  | .inside => (marks.slash text).anyBytes text
  | .between =>
    let inner := marks.slash text
    inner.union ((inner.anyBytes text).slash text)
  | .oneOf negated ranges => marks.step (classHas negated ranges) text
  | .alternatives branches =>
    if allVoid branches then marks else branchesReach d text branches marks

/-- The places that the branches of a group lead to. A branch that describes nothing
    does not count. -/
def branchesReach (d : Dialect) (text : Bytes) (branches : List (List Token)) (marks : Marks) :
    Marks :=
  match branches with
  | [] => .none text
  | b :: bs =>
    let others := branchesReach d text bs marks
    if branchVoid b then others else (tokensReach d text b marks).union others

/-- The places that tokens lead to one after another. -/
def tokensReach (d : Dialect) (text : Bytes) (tokens : List Token) (marks : Marks) : Marks :=
  match tokens with
  | [] => marks
  | t :: ts => tokensReach d text ts (t.reach d text marks)

end

end DocLint.Glob

namespace DocLint

/-- The pattern matches the whole text. A pattern that is only `**` matches everything. -/
def Glob.isMatch (g : Glob) (text : Bytes) : Bool :=
  match g.tokens with
  | [.anywhere] => true
  | tokens => (Glob.tokensReach g.dialect text tokens (.atStart text)).getLastD false

end DocLint
