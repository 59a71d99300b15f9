-- SUMMARY: Paths as byte sequences: components and their order, extension, joining, and the absolute form.
import DocLint.Text.Split
import DocLint.Text.Utf8

/-! # Paths

A path is any sequence of bytes; the slash divides it into segments. Two views of a
path matter. Its text is the lossy decoding of the bytes, which is what is shown and
what the extension is taken from. Its components are what it means to the file
system, and what paths are compared by: empty segments, and `.` segments other than
a first one, are no components.
-/

namespace DocLint

/-- A path, as the bytes it is written with. -/
structure Path where
  bytes : Bytes
  deriving DecidableEq, Repr

/-- The name of a directory entry. -/
abbrev Name := Bytes

namespace Path

/-- The byte that divides segments. -/
def slash : UInt8 := 0x2F

/-- The segment that stands for the directory itself. -/
def dot : Name := [0x2E]

/-- The segment that stands for the directory above. -/
def dotDot : Name := [0x2E, 0x2E]

def ofString (text : String) : Path :=
  ⟨Text.Utf8.encode text.toList⟩

/-- The text of a path, with U+FFFD for what is not UTF-8. -/
def text (p : Path) : String :=
  String.ofList (Text.Utf8.lossy p.bytes)

/-- The path starts at the root directory. -/
def isAbsolute (p : Path) : Bool :=
  p.bytes.head? == some slash

def endsInSlash (p : Path) : Bool :=
  p.bytes.getLast? == some slash

/-- The extension: the text after the last dot of the path, or all of its text if
    there is no dot in it. -/
def extension (p : Path) : String :=
  String.ofList (Text.afterLast '.' (Text.Utf8.lossy p.bytes))

-- ---------------------------------------------------------------------------
-- Components
-- ---------------------------------------------------------------------------

/-- A part of a path that means something to the file system. -/
inductive Component where
  | root
  | current
  | parent
  | name (bytes : Name)
  deriving DecidableEq, Repr

namespace Component

/-- What a segment means when it is not the first one of a relative path. -/
def ofSegment? (segment : Name) : Option Component :=
  if segment = [] ∨ segment = dot then none
  else if segment = dotDot then some .parent
  else some (.name segment)

/-- The segment that a component is written as. -/
def segment : Component → Name
  | .root => []
  | .current => dot
  | .parent => dotDot
  | .name bytes => bytes

/-- The place of a kind of component in the order: the root, then `.`, then `..`,
    then names. -/
def rank : Component → Nat
  | .root => 0
  | .current => 1
  | .parent => 2
  | .name _ => 3

/-- The order of components: by kind, and names by their bytes. -/
protected def compare : Component → Component → Ordering
  | .name a, .name b => compare a b
  | a, b => compare a.rank b.rank

instance : Ord Component := ⟨Component.compare⟩

end Component

/-- The components of a path. -/
def components (p : Path) : List Component :=
  match p.bytes.splitOn slash with
  | [] => []
  | first :: rest =>
    let tail := rest.filterMap Component.ofSegment?
    if p.isAbsolute then .root :: tail
    else if first = dot then .current :: tail
    else (Component.ofSegment? first).toList ++ tail

/-- The order of paths: component by component, a path before those that extend it. -/
protected def compare (p q : Path) : Ordering :=
  compare p.components q.components

/-- The two paths have the same components. -/
def equiv (p q : Path) : Bool :=
  p.components == q.components

-- ---------------------------------------------------------------------------
-- Joining
-- ---------------------------------------------------------------------------

/-- Puts a segment after a path, with one slash between them unless the path is empty
    or ends in one. -/
def join (p : Path) (segment : Name) : Path :=
  if p.bytes.isEmpty || p.endsInSlash then ⟨p.bytes ++ segment⟩
  else ⟨p.bytes ++ slash :: segment⟩

def rootPath : Path := ⟨[slash]⟩

/-- What an absolute path starts with: one slash, or two if there are exactly two. -/
def leadingSlashes (p : Path) : Path :=
  match p.bytes with
  | a :: b :: rest =>
    if a = slash ∧ b = slash ∧ rest.head? ≠ some slash then ⟨[slash, slash]⟩ else rootPath
  | _ => rootPath

/-- The absolute form of a path: it starts at `cwd` if it is relative, `.` and repeated
    slashes are gone, and one slash is kept at the end if there was any. Nothing is
    looked up, so `..` stays. -/
def absolute (p cwd : Path) : Path :=
  let segments := (p.components.filter fun c => c ≠ .root ∧ c ≠ .current).map Component.segment
  let base := if p.isAbsolute then p.leadingSlashes else cwd
  let whole := segments.foldl join base
  if p.endsInSlash then whole.join [] else whole

end Path

end DocLint
