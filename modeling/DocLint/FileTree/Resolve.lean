-- SUMMARY: What a path leads to in a file tree: links are followed up to a limit, and directories must let one through.
import DocLint.FileTree.Basic

/-! # Resolving paths

A path is followed segment by segment, from the root or, if it is relative, from the
working directory. Each segment, also `.`, needs leave to look names up in the directory
it is in; what stands above the working directory has no say in a relative path. A link
is replaced by the segments of its target, which start where the link is or at the root;
the last segment of a path is such a link only if it is to be followed. At most forty
links are followed.
-/

namespace DocLint

/-- The segments of a path that are not empty. -/
def Path.segments (p : Path) : List Name :=
  (p.bytes.splitOn slash).filter (· ≠ [])

namespace FileTree

-- ---------------------------------------------------------------------------
-- Positions
-- ---------------------------------------------------------------------------

/-- A node and how it was reached: the nearest directory first, each with the name that
    was taken in it. -/
structure Position where
  here : Node
  above : List (Name × Node)

namespace Position

def ofRoot (root : Node) : Position := ⟨root, []⟩

def enter (p : Position) (name : Name) (node : Node) : Position :=
  ⟨node, (name, p.here) :: p.above⟩

/-- Goes to the directory above, which for the root is the root. -/
def parent (p : Position) : Position :=
  match p.above with
  | [] => p
  | (_, node) :: above => ⟨node, above⟩

/-- The names that lead to a position from the root. -/
def names (p : Position) : List Name :=
  (p.above.map (·.1)).reverse

/-- Goes down along names, whether or not they may be looked up. -/
def descend? (p : Position) : List Name → Option Position
  | [] => some p
  | name :: rest =>
    match p.here with
    | .dir _ entries => (entries.lookup name).bind fun node => (p.enter name node).descend? rest
    | _ => none

end Position

/-- What a path leads to. -/
inductive Place where
  | found (p : Position)
  /-- The path ends in a slash, and something that is no directory stands before it. -/
  | slashed (p : Position)
  /-- There is no such name in a directory; and whether the path ends in a slash. -/
  | missing (dir : Position) (name : Name) (slash : Bool)

/-- How far a path can be followed without following a link. -/
inductive Progress where
  | stopped (result : Except Fault Place)
  /-- A link, where it stands, and the segments after it. -/
  | link (p : Position) (target : Path) (rest : List Name)

-- ---------------------------------------------------------------------------
-- Following a path
-- ---------------------------------------------------------------------------

def maxName : Nat := 255

/-- The least length of a path that is too long. -/
def pathBound : Nat := 4096

def isTooLong (path : Path) : Bool :=
  pathBound ≤ path.bytes.length

def maxLinks : Nat := 40

/-- Follows segments up to the first link that is to be followed. A link in the last
    place is followed if `follow` says so or if a slash comes after it. -/
def advance (follow slash : Bool) (p : Position) : List Name → Progress
  | [] => .stopped (.ok (if slash && !p.here.isDir then .slashed p else .found p))
  | segment :: rest =>
    match p.here with
    | .dir access entries =>
      if !access.search then .stopped (.error .denied)
      else if segment = Path.dot then advance follow slash p rest
      else if segment = Path.dotDot then advance follow slash p.parent rest
      else if maxName < segment.length then .stopped (.error .nameTooLong)
      else
        match entries.lookup segment with
        | none =>
          .stopped (if rest.isEmpty then .ok (.missing p segment slash) else .error .notFound)
        | some (.link target) =>
          if rest.isEmpty && !follow && !slash then
            .stopped (.ok (.found (p.enter segment (.link target))))
          else .link p target rest
        | some node => advance follow slash (p.enter segment node) rest
    | _ => .stopped (.error .notDirectory)

/-- Follows segments and at most the given number of links. -/
def followLinks (root : Node) (follow : Bool) :
    (links : Nat) → (slash : Bool) → Position → List Name → Except Fault Place
  | 0, slash, p, segments =>
    match advance follow slash p segments with
    | .stopped result => result
    | .link _ _ _ => .error .tooManyLinks
  | links + 1, slash, p, segments =>
    match advance follow slash p segments with
    | .stopped result => result
    | .link p target rest =>
      if target.bytes.isEmpty then .error .notFound
      else
        followLinks root follow links (slash || (rest.isEmpty && target.endsInSlash))
          (if target.isAbsolute then .ofRoot root else p) (target.segments ++ rest)

/-- Where the working directory is, if the names of it lead anywhere. -/
def cwdPosition? (tree : FileTree) : Option Position :=
  (Position.ofRoot tree.root).descend? tree.cwd

/-- Where a path starts. -/
def start? (tree : FileTree) (path : Path) : Option Position :=
  if path.isAbsolute then some (.ofRoot tree.root) else tree.cwdPosition?

/-- What a path leads to. Whether a link in the last place is followed is up to `follow`. -/
def resolve (tree : FileTree) (path : Path) (follow : Bool) : Except Fault Place :=
  if path.bytes.contains 0 then .error .zeroByte
  else if path.bytes.isEmpty then .error .notFound
  else if isTooLong path then .error .nameTooLong
  else
    match tree.start? path with
    | none => .error .notFound
    | some start => followLinks tree.root follow maxLinks path.endsInSlash start path.segments

-- ---------------------------------------------------------------------------
-- Questions
-- ---------------------------------------------------------------------------

/-- The node that a path leads to. -/
def node (tree : FileTree) (path : Path) (follow : Bool) : Except Fault Node :=
  match tree.resolve path follow with
  | .ok (.found p) => .ok p.here
  | .ok (.slashed _) => .error .notDirectory
  | .ok (.missing _ _ _) => .error .notFound
  | .error e => .error e

def isDir (tree : FileTree) (path : Path) : Bool :=
  match tree.node path true with
  | .ok node => node.isDir
  | .error _ => false

/-- The path leads to something. -/
def exists? (tree : FileTree) (path : Path) : Bool :=
  (tree.node path true).isOk

/-- The path itself is a link. -/
def isLink (tree : FileTree) (path : Path) : Bool :=
  match tree.node path false with
  | .ok node => node.isLink
  | .error _ => false

/-- The directories above what a path leads to, outermost first, as paths without links. -/
def ancestors (tree : FileTree) (path : Path) : List Path :=
  match tree.resolve path true with
  | .ok (.found p) =>
    (List.range p.names.length).map fun n => (p.names.take n).foldl Path.join Path.rootPath
  | _ => []

/-- The content of the file that a path leads to. A pipe has no content. -/
def read (tree : FileTree) (path : Path) : Except Fault Bytes :=
  match tree.node path true with
  | .ok (.file access content) => if access.read then .ok content else .error .denied
  | .ok (.dir access _) => .error (if access.read then .isDirectory else .denied)
  | .ok (.link _) => .error .tooManyLinks
  | .ok .fifo => .ok []
  | .ok (.device d) => d.onRead
  | .error e => .error e

/-- Opens what stands at a path, if the path can be followed and reading is allowed. -/
def openAt {α : Type} (path : Path) (readable : Bool) (inside : α) : Except Fault α :=
  if isTooLong path then .error .nameTooLong
  else if readable then .ok inside
  else .error .denied

/-- The content of a file as text. -/
def decodeContent (content : Bytes) : Except Fault (List Char) :=
  match Text.Utf8.decode? content with
  | some text => .ok text
  | none => .error .notText

def readText (tree : FileTree) (path : Path) : Except Fault (List Char) :=
  (tree.read path).bind decodeContent

end FileTree

end DocLint
