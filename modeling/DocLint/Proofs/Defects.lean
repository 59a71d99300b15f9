-- SUMMARY: Which defects a walk reports: those of the checked files it meets, on lines that the files have.
import DocLint.Proofs.Entries
import DocLint.Proofs.Scan
import DocLint.Proofs.Telling
import DocLint.Proofs.Utf8

/-! # Reported defects -/

namespace DocLint

/-- The node is a file that may be read, and this is its content. -/
def Node.IsReadable (node : Node) (content : Bytes) : Prop :=
  ∃ access : Access, node = .file access content ∧ access.read = true

theorem Node.isReadable_file_iff {access : Access} {found content : Bytes} :
    (Node.file access found).IsReadable content ↔ found = content ∧ access.read = true := by
  simp [IsReadable, and_assoc]

/-! ## From findings to files -/

namespace Finding

variable {rules : Rules} {path : Path} {content : Bytes} {d : Defect}

/-- Only a file that is checked and holds text has defects. -/
theorem mem_defects_iff {f : Finding} :
    d ∈ f.defects rules ↔
      ∃ path content text, f = .file path (.ok content) ∧ rules.isCheckable path = true ∧
        Text.Utf8.decode? content = some text ∧ d ∈ rules.checkSource path text := by
  cases f with
  | file path found =>
    have hfile : d ∈ (file path found).defects rules ↔
        rules.isCheckable path = true ∧ ∃ content text, found = .ok content ∧
          Text.Utf8.decode? content = some text ∧ d ∈ rules.checkSource path text := by
      cases hcheck : rules.isCheckable path with
      | false => simp [defects, outcome?, Rules.checkText, hcheck]
      | true =>
        cases found with
        | error fault => simp [defects, outcome?, Rules.checkText, hcheck, Except.bind]
        | ok content =>
          cases htext : Text.Utf8.decode? content <;>
            simp [defects, outcome?, Rules.checkText, hcheck, Except.bind, FileTree.decodeContent,
              htext]
    rw [hfile]
    constructor
    · rintro ⟨hcheck, content, text, rfl, htext, hd⟩
      exact ⟨path, content, text, rfl, hcheck, htext, hd⟩
    · rintro ⟨path, content, text, ⟨⟩, hcheck, htext, hd⟩
      exact ⟨hcheck, content, text, rfl, htext, hd⟩
  | special path => simp [defects, outcome?]
  | excluded path => simp [defects, outcome?]
  | blocked path fault => simp [defects, outcome?]
  | faulty problems => simp [defects, outcome?]

/-- Only a file that can be opened and read yields its content. -/
theorem ofNode?_eq_file_iff {path' : Path} {node : Node} :
    ofNode? path node = some (.file path' (.ok content)) ↔
      path' = path ∧ node.IsReadable content ∧ FileTree.isTooLong path = false := by
  cases node with
  | file access found =>
    cases hlong : FileTree.isTooLong path <;> cases hread : access.read <;>
      simp [ofNode?, FileTree.openAt, Node.isReadable_file_iff, hlong, hread, eq_comm (a := path)]
  | dir access entries =>
    simp only [ofNode?]
    split <;> simp [Node.IsReadable]
  | link target => simp [ofNode?, Node.IsReadable]
  | fifo => simp [ofNode?, Node.IsReadable]
  | device d => simp [ofNode?, Node.IsReadable]

end Finding

namespace Walker

variable {w : Walker} {tree : FileTree} {root path : Path} {content : Bytes} {d : Defect}

/-- The files that a walk can read: those it meets and does not exclude, and the root, should
    that be a file. -/
theorem file_mem_findings_iff :
    .file path (.ok content) ∈ w.findings tree root ↔
      FileTree.isTooLong path = false ∧
        (path = root ∧ (∃ node, tree.node root true = .ok node ∧ node.IsReadable content) ∨
          ∃ trail node, path = root.under trail ∧ w.excludes trail = false ∧
            ⟨trail, node⟩ ∈ w.entries tree root ∧ node.IsReadable content) := by
  have hbefore : .file path (.ok content) ∉ w.beforeRoot tree root := by
    unfold beforeRoot
    split <;> split <;> simp
  have hroot : .file path (.ok content) ∈ w.rootFindings tree root ↔
      FileTree.isTooLong path = false ∧ path = root ∧
        ∃ node, tree.node root true = .ok node ∧ node.IsReadable content := by
    rw [rootFindings, List.mem_append, or_iff_right hbefore]
    cases tree.node root true with
    | error fault => simp
    | ok node =>
      simp only [Option.mem_toList, Finding.ofNode?_eq_file_iff, Except.ok.injEq, exists_eq_left']
      constructor
      · rintro ⟨rfl, hnode, hlong⟩
        exact ⟨hlong, rfl, hnode⟩
      · rintro ⟨hlong, rfl, hnode⟩
        exact ⟨rfl, hnode, hlong⟩
  have hentry (e : Entry) : w.finding? root e = some (.file path (.ok content)) ↔
      FileTree.isTooLong path = false ∧ path = root.under e.trail ∧
        w.excludes e.trail = false ∧ e.node.IsReadable content := by
    unfold finding?
    cases w.excludes e.trail with
    | true => simp
    | false =>
      simp only [Bool.false_eq_true, if_false, Finding.ofNode?_eq_file_iff]
      constructor
      · rintro ⟨rfl, hnode, hlong⟩
        exact ⟨hlong, rfl, trivial, hnode⟩
      · rintro ⟨hlong, rfl, _, hnode⟩
        exact ⟨rfl, hnode, hlong⟩
  rw [findings, List.mem_append, hroot, List.mem_filterMap]
  simp only [hentry]
  constructor
  · rintro (⟨hlong, hpath, hnode⟩ | ⟨⟨trail, node⟩, he, hlong, hpath, hexcludes, hread⟩)
    · exact ⟨hlong, .inl ⟨hpath, hnode⟩⟩
    · exact ⟨hlong, .inr ⟨trail, node, hpath, hexcludes, he, hread⟩⟩
  · rintro ⟨hlong, ⟨hpath, hnode⟩ | ⟨trail, node, hpath, hexcludes, he, hread⟩⟩
    · exact .inl ⟨hlong, hpath, hnode⟩
    · exact .inr ⟨_, he, hlong, hpath, hexcludes, hread⟩

/-- The defects of a report are those of the texts of the files found, and no others. -/
theorem mem_report_defects_iff :
    d ∈ (w.report tree root).defects ↔
      ∃ path content text, .file path (.ok content) ∈ w.findings tree root ∧
        w.rules.isCheckable path = true ∧ Text.Utf8.decode? content = some text ∧
        d ∈ w.rules.checkSource path text := by
  unfold report Report.ofFindings
  simp only [List.mem_flatMap, Finding.mem_defects_iff]
  constructor
  · rintro ⟨_, hf, path, content, text, rfl, h⟩
    exact ⟨path, content, text, hf, h⟩
  · rintro ⟨path, content, text, hf, h⟩
    exact ⟨_, hf, path, content, text, rfl, h⟩

/-- A walk from the root checks the text of the file at the path: it meets the file below the
    root, no exclude glob matches it, its extension is one to check, and it can be opened and
    holds that text. -/
structure Checks (w : Walker) (tree : FileTree) (root path : Path) (text : List Char) : Prop where
  met : ∃ node trail target content, tree.seenAt root = .ok node ∧
    path = (root.absolute tree.cwdPath).under trail ∧
    w.Meets tree (root.absolute tree.cwdPath) [] node trail target ∧
    w.excludes trail = false ∧ target.IsReadable content ∧
    Text.Utf8.decode? content = some text
  checkable : w.rules.isCheckable path = true
  short : FileTree.isTooLong path = false

/-- The defects below a directory are those of the files that are checked there. -/
theorem mem_reportOn_defects_iff (htree : tree.WellFormed) (hroot : tree.isDir root = true) :
    d ∈ (w.reportOn tree root).defects ↔
      ∃ path text, w.Checks tree root path text ∧ d ∈ w.rules.checkSource path text := by
  obtain ⟨node, hnode, hdir⟩ := FileTree.isDir_iff_seenAt.mp hroot
  have hfile (content : Bytes) : ¬ ∃ found,
      tree.node (root.absolute tree.cwdPath) true = .ok found ∧ found.IsReadable content := by
    obtain ⟨here, hhere, hheredir⟩ := FileTree.isDir_iff.mp hroot
    rintro ⟨found, hfound, access, rfl, _⟩
    rw [FileTree.node_absolute htree hhere hheredir] at hfound
    split at hfound
    · cases hfound
    · split at hfound
      · cases hfound
        cases hheredir
      · cases hfound
  unfold reportOn
  simp only [mem_report_defects_iff, file_mem_findings_iff, hfile, and_false, false_or,
    mem_entries_iff htree hnode hdir]
  constructor
  · rintro ⟨path, content, text, ⟨hlong, trail, target, hpath, hexcludes, hmeets, hread⟩, hcheck,
      htext, hd⟩
    exact ⟨path, text, ⟨⟨node, trail, target, content, hnode, hpath, hmeets, hexcludes, hread,
      htext⟩, hcheck, hlong⟩, hd⟩
  · rintro ⟨path, text, ⟨⟨found, trail, target, content, hfound, hpath, hmeets, hexcludes, hread,
      htext⟩, hcheck, hlong⟩, hd⟩
    obtain rfl : found = node := Except.ok.inj (hfound.symm.trans hnode)
    exact ⟨path, content, text, ⟨hlong, trail, target, hpath, hexcludes, hmeets, hread⟩, hcheck,
      htext, hd⟩

end Walker

/-! ## How large line numbers get -/

/-- The line of a defect is one of the text, so its number is no greater than the text is long. -/
theorem Rules.line_le_of_mem_checkSource {rules : Rules} {path : Path} {text : List Char}
    {d : Defect} (h : d ∈ rules.checkSource path text) : d.line ≤ text.length := by
  obtain ⟨n, hn, rfl⟩ := List.mem_map.mp h
  have hbound := (bounds_of_mem_undocumented hn).2
  have hlines := Text.length_physicalLines_le text
  show n ≤ text.length
  omega

namespace Walker

variable {w : Walker} {tree : FileTree} {root : Path} {d : Defect}

/-- Something that is seen in the tree: a node of it, as it is to someone before it or to someone
    who is not let through to it. -/
def Shows (tree : FileTree) (node : Node) : Prop :=
  ∃ held, tree.Holds held ∧ (node = held.seen ∨ node = held.shut)

theorem shows_of_mem_below {node : Node} (hnode : Shows tree node) {trail : List Name}
    {layers : List IgnoreLayer}
    (hlayers : w.enter tree layers (root.under trail) trail.length = w.layersIn tree root trail)
    {e : Entry} (h : e ∈ w.below tree layers (root.under trail) trail node) :
    Shows tree e.node := by
  induction node using Node.induction generalizing trail layers with
  | step node ih =>
    obtain ⟨hopen, name, child, hchild, _, hcase⟩ := (mem_below_step hlayers).mp h
    have hshows : Shows tree child := by
      obtain ⟨held, hheld, rfl | rfl⟩ := hnode
      · rw [Node.entries_seen] at hchild
        obtain ⟨e, he, heq⟩ := List.mem_map.mp hchild
        obtain ⟨_, rfl⟩ := Prod.mk.inj heq
        refine ⟨e.2, hheld.entry he, ?_⟩
        split
        · exact .inl rfl
        · exact .inr rfl
      · rw [Node.isOpen_shut] at hopen
        cases hopen
    rcases hcase with rfl | ⟨_, h⟩
    · exact hshows
    · exact ih _ hchild hshows (w.layersIn_concat tree root trail name).symm h

/-- What a walk meets is what the tree has there. -/
theorem shows_of_mem_entries {e : Entry} (h : e ∈ w.entries tree root) : Shows tree e.node := by
  unfold entries at h
  split at h
  · rename_i node hnode
    exact shows_of_mem_below ⟨node, FileTree.holds_node hnode, .inl rfl⟩ (enter_root w tree root) h
  · cases h

/-- A file is seen with its content. -/
theorem holds_of_shows {node : Node} (h : Shows tree node) {content : Bytes}
    (hread : node.IsReadable content) : ∃ access, tree.Holds (.file access content) := by
  obtain ⟨held, hheld, hnode⟩ := h
  obtain ⟨access, rfl, _⟩ := hread
  cases held with
  | file access' found =>
    obtain rfl : content = found := by
      rcases hnode with h | h <;> exact (Node.file.inj h).2
    exact ⟨access', hheld⟩
  | dir access' entries => simp [Node.seen, Node.shut] at hnode
  | link target => simp [Node.seen, Node.shut] at hnode
  | fifo => simp [Node.seen, Node.shut] at hnode
  | device d => simp [Node.seen, Node.shut] at hnode

/-- A reported line is one that some file of the tree has, and no file has more lines than
    bytes. -/
theorem line_le_of_mem_report (h : d ∈ (w.report tree root).defects) :
    ∃ access content, tree.Holds (.file access content) ∧ d.line ≤ content.length := by
  obtain ⟨path, content, text, hfile, _, htext, hd⟩ := mem_report_defects_iff.mp h
  have hline := Rules.line_le_of_mem_checkSource hd
  have hlength := Text.Utf8.length_le_of_decode? htext
  obtain ⟨_, ⟨_, node, hnode, access, rfl, _⟩ | ⟨trail, node, _, _, he, hread⟩⟩ :=
    file_mem_findings_iff.mp hfile
  · exact ⟨access, content, FileTree.holds_node hnode, Nat.le_trans hline hlength⟩
  · obtain ⟨access, hheld⟩ := holds_of_shows (shows_of_mem_entries he) hread
    exact ⟨access, content, hheld, Nat.le_trans hline hlength⟩

end Walker

end DocLint
