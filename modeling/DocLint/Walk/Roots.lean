-- SUMMARY: Walking one root or several: every root is looked at before any is walked, and the reports add up in order.
import DocLint.Walk.Finding

/-! # Roots -/

namespace DocLint

/-- What a walk of several roots tells as it goes. -/
inductive Event where
  /-- A root, as it was given, is about to be walked. -/
  | rootStarted (root : Path)
  | defect (d : Defect)
  deriving DecidableEq, Repr

/-- The absolute form of a root that is a directory. -/
def FileTree.resolveRoot (tree : FileTree) (root : Path) : Except WalkError Path :=
  if tree.isDir root then .ok (root.absolute tree.cwdPath) else .error (.rootNotFound root)

namespace Walker

/-- The report on a root, which is given in absolute form. -/
def report (w : Walker) (tree : FileTree) (root : Path) : Report :=
  .ofFindings w.rules (w.findings tree root)

def walk (w : Walker) (tree : FileTree) (root : Path) : Except WalkError Report :=
  (tree.resolveRoot root).map (w.report tree)

/-- What a walk of several roots has told, and the report or the error that it came to. -/
structure Telling where
  events : List Event
  result : Except WalkError Report

/-- Walks roots one after another and adds their reports to a total. A root is told before it
    is walked, and a walk that fails ends the telling there. -/
def tellEach (w : Walker) (tree : FileTree) (total : Report) : List Path → Telling
  | [] => ⟨[], .ok total⟩
  | root :: rest =>
    match w.walk tree root with
    | .error e => ⟨[.rootStarted root], .error e⟩
    | .ok report =>
      let later := w.tellEach tree (total.merge report) rest
      ⟨.rootStarted root :: (report.defects.map Event.defect ++ later.events), later.result⟩

/-- Walks roots in order, and tells each root and its defects. All roots are resolved before
    the first of them is walked. -/
def tellRoots (w : Walker) (tree : FileTree) (roots : List Path) : Telling :=
  match roots.mapM tree.resolveRoot with
  | .error e => ⟨[], .error e⟩
  | .ok _ => w.tellEach tree .empty roots

/-- What is told of roots and the report on them, if there is a report. -/
def walkRoots (w : Walker) (tree : FileTree) (roots : List Path) :
    Except WalkError (List Event × Report) :=
  let telling := w.tellRoots tree roots
  telling.result.map fun report => (telling.events, report)

end Walker

end DocLint
