-- SUMMARY: Changes to a file tree: writing files, making directories and links, removing entries.
import DocLint.FileTree.Resolve

/-! # Changing a file tree

Every change is a change of one node that a path leads to, or of one entry of a
directory. All else stays as it is.
-/

namespace DocLint

namespace Node

/-- Puts an entry into a list of entries, in place of one of the same name. -/
def putEntry (name : Name) (node : Node) : List (Name × Node) → List (Name × Node)
  | [] => [(name, node)]
  | (n, x) :: rest =>
    match compare name n with
    | .lt => (name, node) :: (n, x) :: rest
    | .eq => (name, node) :: rest
    | .gt => (n, x) :: putEntry name node rest

/-- Changes the node that the names lead to, if there is one. -/
def changeAt (change : Node → Node) : List Name → Node → Node
  | [], node => change node
  | name :: rest, .dir access entries =>
    .dir access (entries.map fun e => (e.1, if e.1 = name then changeAt change rest e.2 else e.2))
  | _ :: _, node => node

def withEntry (name : Name) (entry : Node) : Node → Node
  | .dir access entries => .dir access (putEntry name entry entries)
  | node => node

def withoutEntry (name : Name) : Node → Node
  | .dir access entries => .dir access (entries.filter (·.1 ≠ name))
  | node => node

def withAccess (access : Access) : Node → Node
  | .file _ content => .file access content
  | .dir _ entries => .dir access entries
  | node => node

end Node

namespace FileTree

/-- Changes the node at a position. -/
def changeAt (tree : FileTree) (p : Position) (change : Node → Node) : FileTree :=
  { tree with root := tree.root.changeAt change p.names }

/-- What an attempt to change a tree comes to, and the tree that it leaves. -/
structure Attempt (α : Type) where
  result : Except Fault α
  tree : FileTree

/-- Writes the file that a path leads to, through links, and makes it if it is missing. -/
def write (tree : FileTree) (path : Path) (content : Bytes) : Attempt Unit :=
  match tree.resolve path true with
  | .ok (.found p) =>
    match p.here with
    | .file access _ =>
      if access.write then ⟨.ok (), tree.changeAt p fun _ => .file access content⟩
      else ⟨.error .denied, tree⟩
    | .dir _ _ => ⟨.error .isDirectory, tree⟩
    | .link _ => ⟨.error .tooManyLinks, tree⟩
    | .fifo => ⟨.ok (), tree⟩
    | .device d => ⟨d.onWrite, tree⟩
  | .ok (.slashed _) => ⟨.error .isDirectory, tree⟩
  | .ok (.missing dir name slash) =>
    if slash then ⟨.error .isDirectory, tree⟩
    else if dir.here.access.write then
      ⟨.ok (), tree.changeAt dir (Node.withEntry name (.file .full content))⟩
    else ⟨.error .denied, tree⟩
  | .error e => ⟨.error e, tree⟩

/-- Puts a node at a path, in place of what stands there. A link there is not followed. -/
def put (tree : FileTree) (path : Path) (entry : Node) : Except Fault FileTree :=
  match tree.resolve path false with
  | .ok (.found p) => .ok (tree.changeAt p fun _ => entry)
  | .ok (.slashed _) => .error .notDirectory
  | .ok (.missing dir name _) => .ok (tree.changeAt dir (Node.withEntry name entry))
  | .error e => .error e

/-- Makes a directory at a path that leads to none. -/
def makeDir (tree : FileTree) (path : Path) : Except Fault FileTree :=
  match tree.resolve path true with
  | .ok (.found p) => if p.here.isDir then .ok tree else .error .notDirectory
  | .ok (.slashed _) => .error .notDirectory
  | .ok (.missing dir name _) => .ok (tree.changeAt dir (Node.withEntry name .emptyDir))
  | .error e => .error e

/-- Makes a directory and those above it. -/
def makeDirs (tree : FileTree) (path : Path) : Except Fault FileTree :=
  let base : Path := if path.isAbsolute then Path.rootPath else ⟨[]⟩
  let step (state : Except Fault (FileTree × Path)) (segment : Name) :
      Except Fault (FileTree × Path) :=
    state.bind fun (tree, path) =>
      let next := path.join segment
      (tree.makeDir next).map fun tree => (tree, next)
  (path.segments.foldl step (.ok (tree, base))).map (·.1)

/-- The path of the directory that a path is in. -/
def parentPath (path : Path) : Path :=
  let base : Path := if path.isAbsolute then Path.rootPath else ⟨[]⟩
  path.segments.dropLast.foldl Path.join base

def makeParents (tree : FileTree) (path : Path) : Except Fault FileTree :=
  tree.makeDirs (parentPath path)

/-- Sets what may be done with what a path leads to. -/
def setAccess (tree : FileTree) (path : Path) (access : Access) : FileTree :=
  match tree.resolve path true with
  | .ok (.found p) => tree.changeAt p (Node.withAccess access)
  | _ => tree

/-- Removes what stands at a path, with everything below it. A link is removed itself. -/
def remove (tree : FileTree) (path : Path) : FileTree :=
  match tree.resolve path false with
  | .ok (.found p) =>
    match p.above with
    | [] => tree
    | (name, _) :: _ => tree.changeAt p.parent (Node.withoutEntry name)
  | _ => tree

end FileTree

end DocLint
