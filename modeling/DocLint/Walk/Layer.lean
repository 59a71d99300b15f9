-- SUMMARY: The ignore files of a directory: where they are, what they say about entries, and what is wrong with them.
import DocLint.FileTree.Resolve
import DocLint.Ignore

/-! # Ignore files in force

A directory has an ignore file that it shares with everyone. If it is the top of a
repository there is another one, where the repository keeps its files. That place is the
entry `.git`, or, if the entry is a file, the one that the file leads to: it names a
directory, and a file in there names the place. Both names start at the working
directory, unless the second one starts with a dot.
-/

namespace DocLint

/-- The path that names make, divided by slashes. -/
def joinNames (names : List Name) : Bytes :=
  List.intercalate [Path.slash] names

-- ---------------------------------------------------------------------------
-- Repositories
-- ---------------------------------------------------------------------------

/-- Where a repository keeps its files. -/
inductive Home where
  | known (path : Path)
  | unknown
  /-- The file that should name the place cannot be read. -/
  | troubled (path : Path) (fault : FileTree.Fault)

namespace Home

/-- The name of the entry that makes a directory the top of a repository. -/
def entry : Name := Text.Utf8.encode ".git".toList

/-- The name of the file that names the place. -/
def commonFile : Name := Text.Utf8.encode "commondir".toList

/-- How a file starts that stands for a directory. -/
def mark : List Char := "gitdir: ".toList

/-- The first line of a content, if it has one. -/
def firstLine? (content : Bytes) : Except FileTree.Fault (Option (List Char)) :=
  match Ignore.byteLines content with
  | [] => .ok none
  | line :: _ => (FileTree.decodeContent line).map some

/-- The directory that the file at a path stands for. -/
def target? (tree : FileTree) (path : Path) : Except FileTree.Fault (Option Path) := do
  match ← firstLine? (← tree.read path) with
  | none => return none
  | some line => return (mark.isPrefixOf? line).map fun name => ⟨Text.Utf8.encode name⟩

/-- The place that a file in the given directory names. -/
def ofCommon (tree : FileTree) (dir : Path) : Home :=
  let file := dir.join commonFile
  match tree.read file with
  | .error .isDirectory => .troubled file .isDirectory
  | .error _ => .unknown
  | .ok content =>
    match firstLine? content with
    | .error fault => .troubled file fault
    | .ok none => .unknown
    | .ok (some line) =>
      let name := Text.Utf8.encode line
      .known (if line.head? = some '.' then dir.join name else ⟨name⟩)

/-- The place of the repository whose top is the given directory. -/
def find (tree : FileTree) (top : Path) : Home :=
  let path := top.join entry
  match tree.node path true with
  | .ok (.file _ _) =>
    match target? tree path with
    | .error fault => .troubled path fault
    | .ok none => .unknown
    | .ok (some dir) => ofCommon tree dir
  | _ => .known path

end Home

-- ---------------------------------------------------------------------------
-- The files of a directory
-- ---------------------------------------------------------------------------

/-- What the ignore files of one directory say. -/
structure IgnoreLayer where
  /-- How many names lead from the root of the walk to the directory. -/
  depth : Nat
  /-- The file of the directory. -/
  shared : List Ignore.Line
  /-- The file that belongs to the repository whose top the directory is. -/
  own : List Ignore.Line

namespace IgnoreLayer

def sharedName : Name := Text.Utf8.encode ".gitignore".toList

/-- The names that lead to the ignore file of a repository. -/
def ownNames : List Name :=
  ["info", "exclude"].map fun name => Text.Utf8.encode name.toList

/-- The ignore file of a directory. -/
def sharedPath (dir : Path) : Path := dir.join sharedName

/-- The ignore file of a repository that keeps its files at the given place. -/
def ownPath (home : Path) : Path := ownNames.foldl Path.join home

/-- The contents of the ignore file at a path; a file that cannot be read has none. -/
def contentsAt (tree : FileTree) (path : Path) : Ignore.Contents :=
  match tree.read path with
  | .ok content => Ignore.parse content
  | .error _ => {}

/-- The ignore files of a directory. -/
def read (tree : FileTree) (dir : Path) (depth : Nat) : IgnoreLayer where
  depth := depth
  shared := (contentsAt tree (sharedPath dir)).lines
  own :=
    match Home.find tree dir with
    | .known home => (contentsAt tree (ownPath home)).lines
    | _ => []

/-- The texts of what is wrong with the ignore file at a path. -/
def problemsAt (tree : FileTree) (path : Path) : List String :=
  (contentsAt tree path).problems.map (Ignore.Problem.message path)

/-- The texts of what is wrong with the ignore files of a directory. -/
def problems (tree : FileTree) (dir : Path) : List String :=
  problemsAt tree (sharedPath dir) ++
    match Home.find tree dir with
    | .known home => problemsAt tree (ownPath home)
    | .unknown => []
    | .troubled path fault => [path.text ++ ": " ++ fault.message]

-- ---------------------------------------------------------------------------
-- Verdicts
-- ---------------------------------------------------------------------------

/-- What lines of a layer say about the entry that the names lead to from the root of
    the walk. -/
def verdict? (layer : IgnoreLayer) (lines : List Ignore.Line) (trail : List Name) (isDir : Bool) :
    Option Ignore.Verdict :=
  Ignore.verdict? lines (joinNames (trail.drop layer.depth)) isDir

/-- The layers, nearest first, drop an entry. The nearest file of a directory that says
    something decides; the files of repositories count if none does. -/
def drops (layers : List IgnoreLayer) (trail : List Name) (isDir : Bool) : Bool :=
  let shared := layers.findSome? fun layer => layer.verdict? layer.shared trail isDir
  let own := layers.findSome? fun layer => layer.verdict? layer.own trail isDir
  shared.or own = some .drop

end IgnoreLayer

end DocLint
