-- SUMMARY: What a walk meets below a root, in order, and the report that follows from it.
import DocLint.Walk.File
import DocLint.Walk.Report
import DocLint.Walk.Walker

/-! # Findings

The walk goes depth first, through the entries of a directory by the order of their
names. Links are not followed. What it meets is a list of entries. Each of them is a
finding or, if it is a directory that was gone through, nothing. The report is read off
the findings.

A directory that may be listed shows its entries. If it may not be searched, that is all
there is to them: none of them can be opened.
-/

namespace DocLint

-- ---------------------------------------------------------------------------
-- What a walk sees
-- ---------------------------------------------------------------------------

namespace Node

/-- The node as it is to someone who is not let through to it. -/
def shut : Node → Node
  | .file _ content => .file .nothing content
  | .dir _ entries => .dir .nothing entries
  | node => node

mutual

/-- The node with everything below it, as it is to someone who stands before it. -/
def seen : Node → Node
  | .dir access entries =>
    .dir access
      (if access.search then seenEach entries else entries.map fun e => (e.1, e.2.shut))
  | node => node

def seenEach : List (Name × Node) → List (Name × Node)
  | [] => []
  | (name, node) :: rest => (name, node.seen) :: seenEach rest

end

end Node

-- ---------------------------------------------------------------------------
-- Meeting entries
-- ---------------------------------------------------------------------------

/-- Something below the root of a walk. -/
structure Entry where
  /-- The names that lead to it from the root. -/
  trail : List Name
  node : Node
  deriving Repr

/-- What was met at each entry of a directory, put in the order of the names. -/
def inNameOrder (met : List (Name × List Entry)) : List Entry :=
  (met.mergeSort fun a b => (compare a.1 b.1).isLE).flatMap (·.2)

mutual

/-- What is met below a node that is neither dropped nor excluded. -/
def Walker.below (w : Walker) (tree : FileTree) (layers : List IgnoreLayer) (path : Path)
    (trail : List Name) (node : Node) : List Entry :=
  match node with
  | .dir access entries =>
    match FileTree.openAt path access.read () with
    | .ok _ =>
      inNameOrder (w.belowEach tree (w.enter tree layers path trail.length) path trail entries)
    | .error _ => []
  | _ => []

/-- What is met at each entry of a directory: nothing if the entry is dropped, else the
    entry and, unless it is excluded, what is below it. -/
def Walker.belowEach (w : Walker) (tree : FileTree) (layers : List IgnoreLayer) (path : Path)
    (trail : List Name) (entries : List (Name × Node)) : List (Name × List Entry) :=
  match entries with
  | [] => []
  | (name, node) :: rest =>
    (name,
      if IgnoreLayer.drops layers (trail ++ [name]) node.isDir then []
      else ⟨trail ++ [name], node⟩ ::
        if w.excludes (trail ++ [name]) then []
        else w.below tree layers (path.join name) (trail ++ [name]) node) ::
    w.belowEach tree layers path trail rest

end

-- ---------------------------------------------------------------------------
-- Findings
-- ---------------------------------------------------------------------------

/-- Something that a walk has to tell. -/
inductive Finding where
  /-- A file, with its content or the fault of reading it. -/
  | file (path : Path) (content : Except FileTree.Fault Bytes)
  /-- Neither a file nor a directory. -/
  | special (path : Path)
  /-- An entry that an exclude glob matches. -/
  | excluded (path : Path)
  /-- A directory that cannot be listed. -/
  | blocked (path : Path) (fault : FileTree.Fault)
  /-- Ignore files above the root with something wrong in them. -/
  | faulty (problems : List String)
  deriving Repr

/-- What there is to tell of a node at a path. -/
def Finding.ofNode? (path : Path) : Node → Option Finding
  | .file access content => some (.file path (FileTree.openAt path access.read content))
  | .link _ | .fifo | .device _ => some (.special path)
  | .dir access _ =>
    match FileTree.openAt path access.read () with
    | .ok _ => none
    | .error fault => some (.blocked path fault)

/-- The path of what the names lead to from a root. -/
def Path.under (root : Path) (trail : List Name) : Path :=
  trail.foldl Path.join root

/-- What there is to tell of an entry below a root. -/
def Walker.finding? (w : Walker) (root : Path) (e : Entry) : Option Finding :=
  if w.excludes e.trail then some (.excluded (root.under e.trail))
  else Finding.ofNode? (root.under e.trail) e.node

/-- What there is to tell of a root that is not opened yet: what is wrong with the ignore
    files above it, as one finding, and the root if it is a link. -/
def Walker.beforeRoot (w : Walker) (tree : FileTree) (root : Path) : List Finding :=
  (if w.problemsAbove tree root = [] then [] else [.faulty (w.problemsAbove tree root)]) ++
  if tree.isLink root then [.special root] else []

/-- What there is to tell of a root itself, also if it cannot be listed. -/
def Walker.rootFindings (w : Walker) (tree : FileTree) (root : Path) : List Finding :=
  w.beforeRoot tree root ++
  match tree.node root true with
  | .ok node => (Finding.ofNode? root node).toList
  | .error fault => [.blocked root fault]

/-- The entries below a root, which is given in absolute form. -/
def Walker.entries (w : Walker) (tree : FileTree) (root : Path) : List Entry :=
  match tree.node root true with
  | .ok node => w.below tree [] root [] node.seen
  | .error _ => []

/-- The findings at a root and below it. -/
def Walker.findings (w : Walker) (tree : FileTree) (root : Path) : List Finding :=
  w.rootFindings tree root ++ (w.entries tree root).filterMap (w.finding? root)

-- ---------------------------------------------------------------------------
-- Reading off a report
-- ---------------------------------------------------------------------------

def blockedWarning (path : Path) (fault : FileTree.Fault) : String :=
  "Walk error: " ++ path.text ++ ": IO error for operation on " ++ path.text ++ ": " ++ fault.message

def faultyWarning (problems : List String) : String :=
  "Walk error: " ++ String.intercalate "\n" problems

namespace Finding

/-- The outcome of the check, if the finding is a file. -/
def outcome? (rules : Rules) : Finding → Option FileOutcome
  | .file path content => some (rules.checkText path (content.bind FileTree.decodeContent))
  | _ => none

def defects (rules : Rules) (f : Finding) : List Defect :=
  match f.outcome? rules with
  | some (.checked defects) => defects
  | _ => []

/-- The finding is a file that was read and scanned. -/
def isChecked (rules : Rules) (f : Finding) : Bool :=
  match f.outcome? rules with
  | some (.checked _) => true
  | _ => false

/-- The skipped entry of something that is neither file nor directory. -/
def special? : Finding → Option Skipped
  | .special path => some ⟨path, .notRegular⟩
  | _ => none

/-- The skipped entry of something excluded. -/
def excluded? : Finding → Option Skipped
  | .excluded path => some ⟨path, .excluded⟩
  | _ => none

/-- The skipped entry of a file whose extension is not checked. -/
def unchecked? (rules : Rules) : Finding → Option Skipped
  | .file path _ => if rules.isCheckable path then none else some ⟨path, .uncheckedExtension⟩
  | _ => none

/-- The warning about a directory that cannot be listed, or about faulty ignore files. -/
def walkWarning? : Finding → Option String
  | .blocked path fault => some (blockedWarning path fault)
  | .faulty problems => some (faultyWarning problems)
  | _ => none

/-- The warning about a file that cannot be read. -/
def unreadable? (rules : Rules) (f : Finding) : Option String :=
  match f, f.outcome? rules with
  | .file path _, some (.unreadable fault) => some (readWarning path fault)
  | _, _ => none

end Finding

/-- The report on findings. Skipped entries come in three blocks, warnings in two. -/
def Report.ofFindings (rules : Rules) (findings : List Finding) : Report where
  defects := findings.flatMap (Finding.defects rules)
  filesChecked := .ofNat (findings.countP (Finding.isChecked rules))
  skipped := findings.filterMap Finding.special? ++ findings.filterMap Finding.excluded? ++
    findings.filterMap (Finding.unchecked? rules)
  warnings := findings.filterMap Finding.walkWarning? ++
    findings.filterMap (Finding.unreadable? rules)

end DocLint
