-- SUMMARY: A walk accounts for everything: each entry that it meets leaves one trace in the report, and nothing else does.
import DocLint.Proofs.WalkOrder

/-! # Coverage

An entry that a walk meets is skipped, warned about or checked, unless it is a directory that
was gone through. The report is the sum of what its entries leave, together with what there
is to tell of the root itself.
-/

namespace DocLint

/-! ## Traces -/

/-- What an entry leaves in a report. -/
inductive Trace where
  | skipped (s : Skipped)
  | warning (text : String)
  | checked (defects : List Defect)
  deriving DecidableEq, Repr

namespace Trace

/-- The trace of a file: it is skipped for its extension before it is opened, and checked if it
    can be opened and is text. -/
def ofFile (rules : Rules) (path : Path) (readable : Bool) (content : Bytes) : Trace :=
  if rules.isCheckable path then
    if FileTree.isTooLong path then .warning (readWarning path .nameTooLong)
    else if readable then
      match Text.Utf8.decode? content with
      | some text => .checked (rules.checkSource path text)
      | none => .warning (readWarning path .notText)
    else .warning (readWarning path .denied)
  else .skipped ⟨path, .uncheckedExtension⟩

/-- The trace of a node that no glob excludes. An open directory leaves none. -/
def ofNode? (rules : Rules) (path : Path) : Node → Option Trace
  | .file access content => some (ofFile rules path access.read content)
  | .dir access _ =>
    if FileTree.isTooLong path then some (.warning (blockedWarning path .nameTooLong))
    else if access.read then none
    else some (.warning (blockedWarning path .denied))
  | .link _ | .fifo | .device _ => some (.skipped ⟨path, .notRegular⟩)

def skipped? : Trace → Option Skipped
  | .skipped s => some s
  | _ => none

def warning? : Trace → Option String
  | .warning text => some text
  | _ => none

def defects : Trace → List Defect
  | .checked defects => defects
  | _ => []

def isChecked : Trace → Bool
  | .checked _ => true
  | _ => false

end Trace

namespace Walker

/-- The trace of an entry below a root. -/
def trace? (w : Walker) (root : Path) (e : Entry) : Option Trace :=
  if w.excludes e.trail then some (.skipped ⟨root.under e.trail, .excluded⟩)
  else Trace.ofNode? w.rules (root.under e.trail) e.node

/-- The traces of a root: one warning for all that is wrong with the ignore files above it, a
    skipped entry if it is a link, and what the directory itself leaves. -/
def rootTraces (w : Walker) (tree : FileTree) (root : Path) (node : Node) : List Trace :=
  (if w.problemsAbove tree root = [] then []
    else [.warning (faultyWarning (w.problemsAbove tree root))]) ++
  (if tree.isLink root then [.skipped ⟨root, .notRegular⟩] else []) ++
  (Trace.ofNode? w.rules root node).toList

end Walker

/-- The report holds the traces and nothing else. Skipped entries and warnings may be in another
    order. -/
structure Report.Tallies (report : Report) (traces : List Trace) : Prop where
  defects : report.defects = traces.flatMap Trace.defects
  filesChecked : report.filesChecked = .ofNat (traces.countP Trace.isChecked)
  skipped : report.skipped.Perm (traces.filterMap Trace.skipped?)
  warnings : report.warnings.Perm (traces.filterMap Trace.warning?)

/-! ## From findings to traces -/

/-- The trace of a finding. -/
def Finding.trace (rules : Rules) : Finding → Trace
  | .file path content =>
    match rules.checkText path (content.bind FileTree.decodeContent) with
    | .notCheckable => .skipped ⟨path, .uncheckedExtension⟩
    | .checked defects => .checked defects
    | .unreadable fault => .warning (readWarning path fault)
  | .special path => .skipped ⟨path, .notRegular⟩
  | .excluded path => .skipped ⟨path, .excluded⟩
  | .blocked path fault => .warning (blockedWarning path fault)
  | .faulty problems => .warning (faultyWarning problems)

theorem Trace.ofFile_eq (rules : Rules) (path : Path) (readable : Bool) (content : Bytes) :
    Trace.ofFile rules path readable content =
      (Finding.file path (FileTree.openAt path readable content)).trace rules := by
  simp only [ofFile, Finding.trace, Rules.checkText, FileTree.openAt]
  cases rules.isCheckable path with
  | false => rfl
  | true =>
    cases FileTree.isTooLong path with
    | true => rfl
    | false =>
      cases readable with
      | false => rfl
      | true =>
        cases hdecode : Text.Utf8.decode? content <;>
          simp [Except.bind, FileTree.decodeContent, hdecode]

/-- The trace of a node, which says nothing of findings, is that of its finding. -/
theorem Trace.ofNode?_eq (rules : Rules) (path : Path) (node : Node) :
    Trace.ofNode? rules path node =
      (Finding.ofNode? path node).map (Finding.trace rules) := by
  cases node with
  | file access content => exact congrArg some (ofFile_eq rules path access.read content)
  | dir access entries =>
    simp only [ofNode?, Finding.ofNode?, FileTree.openAt]
    cases FileTree.isTooLong path <;> cases access.read <;> rfl
  | link target => rfl
  | fifo => rfl
  | device d => rfl

theorem Walker.trace?_eq (w : Walker) (root : Path) (e : Entry) :
    w.trace? root e = (w.finding? root e).map (Finding.trace w.rules) := by
  rw [trace?, finding?]
  split
  · rfl
  · exact Trace.ofNode?_eq w.rules _ e.node

/-- Selections of which no element is in both make one selection. -/
theorem filterMap_append_perm {α β : Type} {f g : α → Option β}
    (h : ∀ a, f a = none ∨ g a = none) (l : List α) :
    (l.filterMap f ++ l.filterMap g).Perm (l.filterMap fun a => (f a).or (g a)) := by
  induction l with
  | nil => exact .nil
  | cons a l ih =>
    rcases h a with hf | hg
    · cases hg : g a with
      | none => simpa [hf, hg] using ih
      | some b => simpa [hf, hg] using List.perm_middle.trans (ih.cons b)
    · cases hf : f a with
      | none => simpa [hf, hg] using ih
      | some b => simpa [hf, hg] using ih.cons b

namespace Finding

variable (rules : Rules)

theorem defects_trace (f : Finding) : (f.trace rules).defects = f.defects rules := by
  cases f with
  | file path content =>
    cases h : rules.checkText path (content.bind FileTree.decodeContent) <;>
      simp [trace, defects, outcome?, h, Trace.defects]
  | _ => rfl

theorem isChecked_trace (f : Finding) : (f.trace rules).isChecked = f.isChecked rules := by
  cases f with
  | file path content =>
    cases h : rules.checkText path (content.bind FileTree.decodeContent) <;>
      simp [trace, isChecked, outcome?, h, Trace.isChecked]
  | _ => rfl

/-- A finding is skipped for at most one reason. -/
theorem skipped?_trace (f : Finding) :
    (f.trace rules).skipped? = (f.special?.or f.excluded?).or (f.unchecked? rules) := by
  cases f with
  | file path content =>
    simp only [trace, Rules.checkText, special?, excluded?, unchecked?]
    cases rules.isCheckable path with
    | false => rfl
    | true => cases content.bind FileTree.decodeContent <;> rfl
  | _ => rfl

theorem listed?_of_skipped?_trace (f : Finding) (s : Skipped)
    (h : (f.trace rules).skipped? = some s) : f.listed? = some s.path := by
  rw [skipped?_trace, Option.or_eq_some_iff, Option.or_eq_some_iff] at h
  rcases h with (h | ⟨_, h⟩) | ⟨_, h⟩
  · exact (special?_listed f s h).2
  · exact (excluded?_listed f s h).2
  · exact (unchecked?_listed rules f s h).2

theorem warning?_trace (f : Finding) :
    (f.trace rules).warning? = f.walkWarning?.or (f.unreadable? rules) := by
  cases f with
  | file path content =>
    cases h : rules.checkText path (content.bind FileTree.decodeContent) <;>
      simp [trace, walkWarning?, unreadable?, outcome?, h, Trace.warning?]
  | _ => rfl

end Finding

/-- Each list of a report, and its count, comes from the traces of the findings. -/
theorem Report.tallies_ofFindings (rules : Rules) (findings : List Finding) :
    (Report.ofFindings rules findings).Tallies (findings.map (Finding.trace rules)) where
  defects := by
    simp only [ofFindings, List.flatMap_map, Finding.defects_trace]
  filesChecked := by
    simp only [ofFindings, List.countP_map, Function.comp_def, Finding.isChecked_trace]
  skipped := by
    have hspecial (f : Finding) : f.special? = none ∨ f.excluded? = none := by
      cases f <;> simp [Finding.special?, Finding.excluded?]
    have hunchecked (f : Finding) :
        f.special?.or f.excluded? = none ∨ f.unchecked? rules = none := by
      cases f <;> simp [Finding.special?, Finding.excluded?, Finding.unchecked?]
    simp only [ofFindings, List.filterMap_map, Function.comp_def, Finding.skipped?_trace]
    exact ((filterMap_append_perm hspecial findings).append_right _).trans
      (filterMap_append_perm hunchecked findings)
  warnings := by
    have hwarning (f : Finding) : f.walkWarning? = none ∨ f.unreadable? rules = none := by
      cases f <;> simp [Finding.walkWarning?, Finding.unreadable?]
    simp only [ofFindings, List.filterMap_map, Function.comp_def, Finding.warning?_trace]
    exact filterMap_append_perm hwarning findings

/-! ## The traces of a walk -/

namespace Walker

section

variable {w : Walker} {tree : FileTree} {root : Path} (htree : tree.WellFormed) {node : Node}
  (hnode : tree.seenAt root = .ok node) (hdir : node.isDir = true)

include htree hnode hdir

theorem rootFindings_trace :
    (w.rootFindings tree (root.absolute tree.cwdPath)).map (Finding.trace w.rules) =
      w.rootTraces tree (root.absolute tree.cwdPath) node := by
  rw [rootFindings_absolute htree hnode hdir, rootTraces, List.map_append, beforeRoot,
    List.map_append, Trace.ofNode?_eq]
  congr 1
  · congr 1 <;> split <;> rfl
  · cases Finding.ofNode? (root.absolute tree.cwdPath) node <;> rfl

/-- The traces of all that is found: those of the root, then one for each entry that leaves one. -/
theorem findings_trace :
    (w.findings tree (root.absolute tree.cwdPath)).map (Finding.trace w.rules) =
      w.rootTraces tree (root.absolute tree.cwdPath) node ++
        (w.entries tree (root.absolute tree.cwdPath)).filterMap
          (w.trace? (root.absolute tree.cwdPath)) := by
  have htrace : w.trace? (root.absolute tree.cwdPath) = fun e =>
      (w.finding? (root.absolute tree.cwdPath) e).map (Finding.trace w.rules) :=
    funext (w.trace?_eq (root.absolute tree.cwdPath))
  rw [findings, List.map_append, rootFindings_trace htree hnode hdir, List.map_filterMap, htrace]

/-- No entry is met twice. -/
theorem entries_trails_nodup :
    ((w.entries tree (root.absolute tree.cwdPath)).map Entry.trail).Nodup := by
  refine List.pairwise_map.mpr ((entries_increasing htree hnode hdir).imp ?_)
  intro a b hlt heq
  rw [heq, Std.ReflOrd.compare_self] at hlt
  exact absurd hlt nofun

end

/-- Exactly the entries that a walk should meet leave a trace in its report, each of them the
    one that it should leave. No path is skipped twice. -/
theorem walk_covers (w : Walker) {tree : FileTree} (htree : tree.WellFormed) {root : Path}
    (hroot : tree.isDir root = true) :
    ∃ (top : Path) (node : Node) (report : Report) (met : List Entry),
      tree.resolveRoot root = .ok top ∧ tree.seenAt root = .ok node ∧
      w.walk tree root = .ok report ∧
      (met.map Entry.trail).Nodup ∧
      (∀ e, e ∈ met ↔ w.Meets tree top [] node e.trail e.node) ∧
      report.Tallies (w.rootTraces tree top node ++ met.filterMap (w.trace? top)) ∧
      (report.skipped.map Skipped.path).Nodup := by
  obtain ⟨node, hnode, hdir⟩ := FileTree.isDir_iff_seenAt.mp hroot
  have htallies := Report.tallies_ofFindings w.rules
    (w.findings tree (root.absolute tree.cwdPath))
  have hskipped := Finding.selected_increasing
    (Finding.listed?_of_skipped?_trace w.rules) (w.listed_increasing htree hnode hdir)
  refine ⟨root.absolute tree.cwdPath, node, _, w.entries tree (root.absolute tree.cwdPath),
    FileTree.resolveRoot_of_isDir hroot, hnode, w.walk_of_isDir hroot,
    entries_trails_nodup htree hnode hdir, fun e => mem_entries_iff htree hnode hdir, ?_, ?_⟩
  · rw [← findings_trace htree hnode hdir]
    exact htallies
  · have hperm := htallies.skipped.map Skipped.path
    rw [List.filterMap_map] at hperm
    exact hperm.nodup_iff.mpr (Path.nodup_of_increasing hskipped)

end Walker

/-- The traces of every kind of node: `i.b` is dropped and leaves none, `x` is skipped with what is
    below it, and `a` was gone through. -/
def Trace.listOfEveryKind : List Trace :=
  [.skipped ⟨⟨[47, 114, 47] ++ IgnoreLayer.sharedName⟩, .uncheckedExtension⟩,
    .checked [⟨⟨[47, 114, 47, 97, 47, 102, 46, 98]⟩, 1⟩],
    .skipped ⟨⟨[47, 114, 47, 97, 47, 103]⟩, .uncheckedExtension⟩,
    .checked [⟨⟨[47, 114, 47, 97, 46, 98]⟩, 1⟩],
    .warning "Walk error: /r/c: IO error for operation on /r/c: Permission denied (os error 13)",
    .skipped ⟨⟨[47, 114, 47, 100]⟩, .notRegular⟩,
    .skipped ⟨⟨[47, 114, 47, 108]⟩, .notRegular⟩,
    .skipped ⟨⟨[47, 114, 47, 112]⟩, .notRegular⟩,
    .warning "Failed to read file /r/s/f.b: Permission denied (os error 13)",
    .skipped ⟨⟨[47, 114, 47, 120]⟩, .excluded⟩]

theorem Trace.listOfEveryKind_eq :
    Finding.listOfEveryKind.map (Finding.trace Walker.ofEveryKind.rules) = listOfEveryKind := by
  decide +kernel

/-- A tree with an entry of every kind, an exclude glob and an ignore file. Each entry leaves the
    trace that its kind calls for. -/
theorem Walker.walk_covers_ofEveryKind :
    FileTree.ofEveryKind.WellFormed ∧ FileTree.ofEveryKind.isDir ⟨Path.dot⟩ = true ∧
    ∃ (top : Path) (node : Node) (report : Report) (met : List Entry),
      FileTree.ofEveryKind.resolveRoot ⟨Path.dot⟩ = .ok top ∧
      FileTree.ofEveryKind.seenAt ⟨Path.dot⟩ = .ok node ∧
      Walker.ofEveryKind.walk .ofEveryKind ⟨Path.dot⟩ = .ok report ∧
      (met.map Entry.trail).Nodup ∧
      (∀ e, e ∈ met ↔ Walker.ofEveryKind.Meets .ofEveryKind top [] node e.trail e.node) ∧
      report.Tallies (Walker.ofEveryKind.rootTraces .ofEveryKind top node ++
        met.filterMap (Walker.ofEveryKind.trace? top)) ∧
      (report.skipped.map Skipped.path).Nodup ∧
      report.Tallies Trace.listOfEveryKind := by
  have htree : FileTree.ofEveryKind.WellFormed := by decide
  have hroot : FileTree.ofEveryKind.isDir ⟨Path.dot⟩ = true := by decide
  obtain ⟨top, node, report, met, htop, hnode, hwalk, htrails, hmet, htallies, hskipped⟩ :=
    Walker.ofEveryKind.walk_covers htree hroot
  refine ⟨htree, hroot, top, node, report, met, htop, hnode, hwalk, htrails, hmet, htallies,
    hskipped, ?_⟩
  cases hwalk.symm.trans Walker.walk_ofEveryKind
  rw [← Trace.listOfEveryKind_eq]
  exact Report.tallies_ofFindings _ _

end DocLint
