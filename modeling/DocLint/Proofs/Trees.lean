-- SUMMARY: Well-formed file trees: what every file system promises about names, what names lead to, and what is seen of it.
import DocLint.Proofs.Paths

/-! # Well-formed trees

In a directory no two entries have the same name, and every name is one that a path can
lead to. So names that are followed one by one lead to the entries that are there. What may be
done with a node has no part in this: a tree is as well-formed as what is seen of it.
-/

namespace DocLint

namespace Node

theorem eq_dir_of_isDir {node : Node} (h : node.isDir = true) :
    ∃ access entries, node = .dir access entries := by
  cases node with
  | dir access entries => exact ⟨access, entries, rfl⟩
  | file access content => exact absurd h Bool.false_ne_true
  | link target => exact absurd h Bool.false_ne_true
  | fifo => exact absurd h Bool.false_ne_true
  | device d => exact absurd h Bool.false_ne_true

/-- The entries of a directory. Nothing else has any. -/
def entries : Node → List (Name × Node)
  | .dir _ entries => entries
  | _ => []

/-- Going down makes nodes smaller, which is what inductions over trees rest on. -/
theorem sizeOf_lt_of_mem_entries {node : Node} {e : Name × Node} (h : e ∈ node.entries) :
    sizeOf e.2 < sizeOf node := by
  cases node with
  | dir access entries =>
    have hsize := List.sizeOf_lt_of_mem h
    obtain ⟨name, child⟩ := e
    simp only [Node.entries, Prod.mk.sizeOf_spec, Node.dir.sizeOf_spec] at hsize ⊢
    omega
  | file access content => exact absurd h List.not_mem_nil
  | link target => exact absurd h List.not_mem_nil
  | fifo => exact absurd h List.not_mem_nil
  | device d => exact absurd h List.not_mem_nil

/-- What holds of a node if it holds of its entries holds of all nodes. -/
theorem induction {motive : Node → Prop}
    (step : ∀ node : Node, (∀ e ∈ node.entries, motive e.2) → motive node) (node : Node) :
    motive node :=
  step node fun e _ => induction step e.2
termination_by sizeOf node
decreasing_by exact sizeOf_lt_of_mem_entries ‹_›

mutual

/-- The names in every directory at and below the node are fit to be names, and no two of
    them are the same. -/
def isWellFormed : Node → Bool
  | .dir _ entries => decide (entries.map (·.1)).Nodup && areWellFormed entries
  | _ => true

/-- The same for entries of one directory, apart from being different. -/
def areWellFormed : List (Name × Node) → Bool
  | [] => true
  | (name, node) :: rest => decide (Path.IsName name) && node.isWellFormed && areWellFormed rest

end

theorem areWellFormed_iff {entries : List (Name × Node)} :
    areWellFormed entries = true ↔
      ∀ e ∈ entries, Path.IsName e.1 ∧ e.2.isWellFormed = true := by
  induction entries with
  | nil => simp [areWellFormed]
  | cons e rest ih =>
    obtain ⟨name, node⟩ := e
    rw [areWellFormed, Bool.and_eq_true, Bool.and_eq_true, decide_eq_true_eq, ih,
      List.forall_mem_cons]

/-- A node is well-formed if its names are proper and different, and what they name is well-formed.
    -/
theorem isWellFormed_iff {node : Node} :
    node.isWellFormed = true ↔
      (node.entries.map (·.1)).Nodup ∧
        ∀ e ∈ node.entries, Path.IsName e.1 ∧ e.2.isWellFormed = true := by
  cases node with
  | dir access entries =>
    rw [isWellFormed, Bool.and_eq_true, decide_eq_true_eq, areWellFormed_iff]
    rfl
  | file access content => simp [isWellFormed, entries]
  | link target => simp [isWellFormed, entries]
  | fifo => simp [isWellFormed, entries]
  | device d => simp [isWellFormed, entries]

/-! ## What is seen -/

@[simp] theorem isDir_shut (node : Node) : node.shut.isDir = node.isDir := by
  cases node <;> rfl

@[simp] theorem isDir_seen (node : Node) : node.seen.isDir = node.isDir := by
  cases node <;> simp [seen, isDir]

theorem seenEach_eq_map (entries : List (Name × Node)) :
    seenEach entries = entries.map fun e => (e.1, e.2.seen) := by
  induction entries with
  | nil => rfl
  | cons e rest ih =>
    obtain ⟨name, node⟩ := e
    rw [seenEach, ih]
    rfl

/-- What is seen of the entries of a directory depends on whether it may be searched. -/
theorem entries_seen (node : Node) :
    node.seen.entries =
      node.entries.map fun e => (e.1, if node.access.search then e.2.seen else e.2.shut) := by
  cases node with
  | dir access entries =>
    by_cases h : access.search = true <;>
      simp [seen, Node.entries, Node.access, h, seenEach_eq_map]
  | file access content => simp [seen, entries]
  | link target => simp [seen, entries]
  | fifo => simp [seen, entries]
  | device d => simp [seen, entries]

theorem isWellFormed_shut (node : Node) : node.shut.isWellFormed = node.isWellFormed := by
  cases node <;> rfl

/-- Not being let through takes nothing away from the shape of a tree. -/
theorem isWellFormed_seen {node : Node} (h : node.isWellFormed = true) :
    node.seen.isWellFormed = true := by
  induction node using Node.induction with
  | step node ih =>
    obtain ⟨hnames, hentries⟩ := isWellFormed_iff.mp h
    rw [isWellFormed_iff, entries_seen]
    refine ⟨by simpa [Function.comp_def] using hnames, ?_⟩
    intro e he
    obtain ⟨child, hchild, rfl⟩ := List.mem_map.mp he
    obtain ⟨hname, hwell⟩ := hentries child hchild
    refine ⟨hname, ?_⟩
    cases node.access.search with
    | true => exact ih child hchild hwell
    | false => exact (isWellFormed_shut child.2).trans hwell

/-! ## Following names -/

/-- What the names lead to from a node. Links lead nowhere. -/
def at? (node : Node) : List Name → Option Node
  | [] => some node
  | name :: rest =>
    match node.entries.lookup name with
    | some child => child.at? rest
    | none => none

theorem at?_cons {node target : Node} {name : Name} {rest : List Name} :
    node.at? (name :: rest) = some target ↔
      ∃ child, node.entries.lookup name = some child ∧ child.at? rest = some target := by
  rw [at?]
  cases node.entries.lookup name with
  | none => simp
  | some child => simp

theorem at?_concat (node : Node) (names : List Name) (name : Name) :
    node.at? (names ++ [name]) = (node.at? names).bind fun dir => dir.entries.lookup name := by
  induction names generalizing node with
  | nil => cases h : node.entries.lookup name <;> simp [at?, h]
  | cons first names ih =>
    rw [List.cons_append, at?, at?]
    cases node.entries.lookup first with
    | none => rfl
    | some child => exact ih child

theorem lookup_mem {entries : List (Name × Node)} {name : Name} {node : Node}
    (h : entries.lookup name = some node) : (name, node) ∈ entries := by
  obtain ⟨before, after, rfl, _⟩ := List.lookup_eq_some_iff.mp h
  simp

/-- Where names are different, looking one up finds each entry. -/
theorem lookup_eq_some_iff_mem {entries : List (Name × Node)} (h : (entries.map (·.1)).Nodup)
    {name : Name} {node : Node} : entries.lookup name = some node ↔ (name, node) ∈ entries := by
  constructor
  · exact lookup_mem
  · intro hmem
    obtain ⟨before, after, rfl⟩ := List.append_of_mem hmem
    refine List.lookup_eq_some_iff.mpr ⟨before, after, rfl, fun e he => ?_⟩
    rw [List.map_append, List.map_cons, List.nodup_append] at h
    have hne := h.2.2 e.1 (List.mem_map_of_mem he) name List.mem_cons_self
    simpa [bne_iff_ne] using Ne.symm hne

/-- Names that lead to something are proper names. -/
theorem isName_of_at? {node target : Node} (hnode : node.isWellFormed = true) {trail : List Name}
    (h : node.at? trail = some target) : ∀ name ∈ trail, Path.IsName name := by
  induction trail generalizing node with
  | nil => exact fun _ hname => absurd hname List.not_mem_nil
  | cons name rest ih =>
    obtain ⟨child, hchild, hrest⟩ := at?_cons.mp h
    obtain ⟨hname, hwell⟩ := (isWellFormed_iff.mp hnode).2 _ (lookup_mem hchild)
    exact List.forall_mem_cons.mpr ⟨hname, ih hwell hrest⟩

end Node

namespace FileTree

/-- The tree is one that a file system can hold, and the working directory has a name that is not
    too long for it. -/
structure WellFormed (tree : FileTree) : Prop where
  root : tree.root.isWellFormed = true
  cwd : ∀ name ∈ tree.cwd, Path.IsName name
  cwd_length_le : ∀ name ∈ tree.cwd, name.length ≤ maxName

instance (tree : FileTree) : Decidable tree.WellFormed :=
  decidable_of_iff
    (tree.root.isWellFormed = true ∧ (∀ name ∈ tree.cwd, Path.IsName name) ∧
      ∀ name ∈ tree.cwd, name.length ≤ maxName)
    ⟨fun ⟨h₁, h₂, h₃⟩ => ⟨h₁, h₂, h₃⟩, fun ⟨h₁, h₂, h₃⟩ => ⟨h₁, h₂, h₃⟩⟩

/-- The node stands somewhere in the tree. -/
inductive Holds (tree : FileTree) : Node → Prop where
  | root : tree.Holds tree.root
  | entry {node : Node} {e : Name × Node} : tree.Holds node → e ∈ node.entries → tree.Holds e.2

theorem Holds.isWellFormed {tree : FileTree} (htree : tree.WellFormed) {node : Node}
    (h : tree.Holds node) : node.isWellFormed = true := by
  induction h with
  | root => exact htree.root
  | entry _ he ih => exact ((Node.isWellFormed_iff.mp ih).2 _ he).2

end FileTree

end DocLint
