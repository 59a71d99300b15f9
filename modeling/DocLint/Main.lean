-- SUMMARY: The command line program: looks at the files that a run needs, runs on that picture, and hands on what comes out.
import DocLint.Command.Help
import DocLint.Command.Run

/-! # The command line program

A run is a function of a file tree, so the program first makes the tree: the settings
file, and below every root all there is. Of the files below a root only those are read
whose text the run can use.
-/

namespace DocLint.Disk

-- ---------------------------------------------------------------------------
-- Looking at files
-- ---------------------------------------------------------------------------

/-- What stands at a path, which may be a link. -/
def kindAt (path : String) : IO IO.FS.FileType := do
  let here ← IO.currentDir
  return (← (here / path).symlinkMetadata).type

/-- The names in a directory; nothing if it cannot be listed. -/
def namesIn? (dir : String) : IO (Option (List String)) := do
  let here ← IO.currentDir
  try return some ((← (here / dir).readDir).toList.map (·.fileName))
  catch _ => return none

/-- The path without links that a path leads to; nothing if it leads nowhere. -/
def realPath? (path : String) : IO (Option Path) := do
  let here ← IO.currentDir
  try
    if ← (here / path).pathExists then
      return some (.ofString (← IO.FS.realPath path).toString)
    else return none
  catch _ => return none

/-- A file with its content, which is left out where it is not wanted. -/
def readFile (wanted : Path → Bool) (path : String) : IO Node := do
  if wanted (.ofString path) then
    try return .file .full (← IO.FS.readBinFile path).toList
    catch _ => return .file .nothing []
  else return .file .full []

/-- What stands at a path, with everything below it. -/
partial def readNode (wanted : Path → Bool) (path : String) : IO Node := do
  match ← (kindAt path).toBaseIO with
  | .ok .dir =>
    match ← namesIn? path with
    | none => return .dir .nothing []
    | some names =>
      names.foldlM (fun node name => do
        let entry ← readNode wanted (path ++ "/" ++ name)
        return Node.withEntry (Text.Utf8.encode name.toList) entry node) .emptyDir
  | .ok .file => readFile wanted path
  | .ok .symlink => return .link ((← realPath? path).getD ⟨[]⟩)
  | .ok .other => return .fifo
  | .error _ => return .file .nothing []

-- ---------------------------------------------------------------------------
-- Trees of what was seen
-- ---------------------------------------------------------------------------

/-- The change, if it can be made. -/
def keep (tree : FileTree) (change : FileTree → Except FileTree.Fault FileTree) : FileTree :=
  (change tree).toOption.getD tree

/-- Adds one step on the way to a path: a directory, or a link and where it leads. -/
def addStep (tree : FileTree) (path : Path) : IO FileTree := do
  match ← (kindAt path.text).toBaseIO with
  | .ok .dir => return keep tree (·.makeDir path)
  | .ok .symlink =>
    match ← realPath? path.text with
    | none => return keep tree (·.put path (.link ⟨[]⟩))
    | some real =>
      let here ← IO.currentDir
      let tree := if ← (here / real.text).isDir then keep tree (·.makeDirs real) else tree
      return keep tree (·.put path (.link real))
  | .ok .file => return keep tree (·.put path (.file .full []))
  | .ok .other => return keep tree (·.put path .fifo)
  | .error (.permissionDenied ..) => return tree.setAccess (FileTree.parentPath path) .nothing
  | .error _ => return tree

/-- Adds what a path leads to, with everything below it and the way there. -/
def addPath (wanted : Path → Bool) (tree : FileTree) (path : Path) : IO FileTree := do
  let path := path.absolute tree.cwdPath
  let (tree, _) ← path.segments.foldlM (fun (tree, reached) segment => do
    let next := Path.join reached segment
    return (← addStep tree next, next)) (tree, Path.rootPath)
  match ← realPath? path.text with
  | none => return tree
  | some real =>
    let node ← readNode wanted real.text
    return keep tree fun tree => do (← tree.makeParents real).put real node

def workingDirectory : IO FileTree := do
  let cwd := Path.ofString (← IO.currentDir).toString
  let tree : FileTree := ⟨.emptyDir, cwd.segments⟩
  return keep tree (·.makeDirs cwd)

/-- The run can use the text of the file: it is checked, or it may be an ignore file or
    lead to one. -/
def isUsed (rules : Rules) (path : Path) : Bool :=
  rules.isCheckable path || path.segments.getLast?.any
    (IgnoreLayer.sharedName :: Home.entry :: IgnoreLayer.ownNames).contains

/-- Adds a file, if that is what a path leads to. -/
def addFile (tree : FileTree) (path : Path) : IO FileTree := do
  let here ← IO.currentDir
  if ← (here / path.text).isDir then return tree else addPath (fun _ => true) tree path

/-- Adds the ignore files of a directory. -/
def addIgnoreFiles (tree : FileTree) (dir : Path) : IO FileTree := do
  let entry := dir.join Home.entry
  let tree ← addFile (← addFile tree (IgnoreLayer.sharedPath dir)) entry
  let tree ← match Home.target? tree entry with
    | .ok (some target) => addFile tree (target.join Home.commonFile)
    | _ => pure tree
  match Home.find tree dir with
  | .known home => addFile tree (IgnoreLayer.ownPath home)
  | _ => return tree

/-- Adds a root, with the ignore files above it if they count. -/
def addRoot (config : Config) (tree : FileTree) (root : Path) : IO FileTree := do
  let tree ← addPath (isUsed config.rules) tree root
  if config.check.gitignore then
    (tree.ancestors root ++ [root]).foldlM addIgnoreFiles tree
  else return tree

/-- The tree of all that a run needs. -/
def treeFor (invocation : Command.Invocation) : IO FileTree := do
  let tree ← workingDirectory
  let usual := Path.ofString Command.configName
  match invocation.action with
  | .init _ => addPath (fun _ => true) tree usual
  | .check paths named format _ =>
    let tree ← addPath (fun _ => true) tree (named.getD usual)
    match Command.prepare tree named ⟨paths.map .ofString, format, invocation.colour⟩ with
    | .error _ => return tree
    | .ok config => config.check.roots.foldlM (addRoot config) tree

/-- The content of the settings file, if a run has changed it. -/
def changed? (before after : FileTree) : Option Bytes :=
  let file := Path.ofString Command.configName
  match before.read file, after.read file with
  | _, .error _ => none
  | .ok old, .ok new => if old = new then none else some new
  | .error _, .ok new => some new

/-- The tree in which the settings file can be neither written nor made. -/
def forbid (tree : FileTree) : FileTree :=
  let kept : Access := ⟨true, false, true⟩
  (tree.setAccess (.ofString Command.configName) kept).setAccess (.ofString ".") kept

/-- Runs the program and writes the settings file. If that is not allowed, the run is one on a
    tree that does not allow it. -/
def runAndSave (host : Command.Host) (tree : FileTree) (invocation : Command.Invocation) :
    IO Command.Outcome := do
  let outcome := Command.run host tree invocation .unlimited .unlimited
  match changed? tree outcome.tree with
  | none => return outcome
  | some content =>
    try
      IO.FS.writeBinFile Command.configName ⟨content.toArray⟩
      return outcome
    catch _ => return Command.run host (forbid tree) invocation .unlimited .unlimited

/-- The machine, by its two outputs and its environment. -/
def host (out err : IO.FS.Stream) : IO Command.Host := do
  return {
    outIsTerminal := ← out.isTty
    errIsTerminal := ← err.isTty
    terminal := (← IO.getEnv "TERM").map fun name => Text.Utf8.encode name.toList
    noColour := (← IO.getEnv "NO_COLOR").isSome }

end DocLint.Disk

open DocLint in
/-- Runs the program in the working directory. -/
def main (args : List String) : IO UInt32 := do
  let out ← IO.getStdout
  let err ← IO.getStderr
  match Command.Invocation.parse args with
  | .error usage =>
    (if usage.exitCode = 0 then out else err).putStr usage.text
    return usage.exitCode.toUInt32
  | .ok invocation =>
    let tree ← Disk.treeFor invocation
    let outcome ← Disk.runAndSave (← Disk.host out err) tree invocation
    out.putStr outcome.out.taken
    err.putStr outcome.err.taken
    return outcome.exitCode.toUInt32
