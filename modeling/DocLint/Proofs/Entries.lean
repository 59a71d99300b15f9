-- SUMMARY: What a walk meets: the entries it reaches through open directories, each once, in the order of their names.
import DocLint.Proofs.Resolution

/-! # The entries of a walk

Whether a walk meets an entry depends on the entry and on the directories above it, and on
nothing else. The walk itself prunes as it goes down; here each entry is judged from the
root, by what is seen from there.
-/

namespace DocLint

/-- A walk can go through what stands at the path: it is a directory that may be listed. -/
def Node.isOpen (path : Path) : Node → Bool
  | .dir access _ => access.read && !FileTree.isTooLong path
  | _ => false

/-- Nothing is seen below a node that one is not let through to. -/
theorem Node.isOpen_shut (path : Path) (node : Node) : node.shut.isOpen path = false := by
  cases node <;> rfl

namespace Walker

/-! ## Being met -/

/-- The ignore layers in force in the directory that the names lead to: its own first, that
    of the root last. -/
def layersIn (w : Walker) (tree : FileTree) (root : Path) (trail : List Name) :
    List IgnoreLayer :=
  if w.gitignore then
    (List.range (trail.length + 1)).reverse.map fun n =>
      IgnoreLayer.read tree (root.under (trail.take n)) n
  else []

/-- The ignore files between the root and the entry that the names lead to drop it. -/
def drops (w : Walker) (tree : FileTree) (root : Path) (trail : List Name) (node : Node) : Bool :=
  IgnoreLayer.drops (w.layersIn tree root trail.dropLast) trail node.isDir

/-- From a node, which the names in `base` lead to from the root, the names in `rest` lead to
    an entry that a walk meets: it is not dropped, and every directory on the way, the node
    itself included, is open. Those after the node are neither dropped nor excluded. -/
structure Meets (w : Walker) (tree : FileTree) (root : Path) (base : List Name) (node : Node)
    (rest : List Name) (target : Node) : Prop where
  ne_nil : rest ≠ []
  at_eq : node.at? rest = some target
  kept : w.drops tree root (base ++ rest) target = false
  through : ∀ n < rest.length, ∃ dir, node.at? (rest.take n) = some dir ∧
    dir.isOpen (root.under (base ++ rest.take n)) = true ∧
    (0 < n → w.drops tree root (base ++ rest.take n) dir = false ∧
      w.excludes (base ++ rest.take n) = false)

section

variable {w : Walker} {tree : FileTree} {root : Path} {base rest : List Name}
  {node child target : Node} {name : Name}

theorem Meets.isOpen (h : w.Meets tree root base node rest target) :
    node.isOpen (root.under base) = true := by
  obtain ⟨here, heq, hopen, _⟩ := h.through 0 (List.length_pos_iff.mpr h.ne_nil)
  obtain rfl : node = here := by simpa [Node.at?] using heq
  simpa using hopen

/-- Seen from the first directory on the way, what comes after it is met too. -/
theorem Meets.tail (h : w.Meets tree root base node (name :: rest) target) (hne : rest ≠ [])
    (hchild : node.entries.lookup name = some child) :
    w.drops tree root (base ++ [name]) child = false ∧ w.excludes (base ++ [name]) = false ∧
      w.Meets tree root (base ++ [name]) child rest target := by
  have hbelow : ∀ n < rest.length, ∃ dir, child.at? (rest.take n) = some dir ∧
      dir.isOpen (root.under (base ++ [name] ++ rest.take n)) = true ∧
      w.drops tree root (base ++ [name] ++ rest.take n) dir = false ∧
      w.excludes (base ++ [name] ++ rest.take n) = false := by
    intro n hn
    obtain ⟨dir, hdir, hopen, hpass⟩ := h.through (n + 1) (by simpa using hn)
    rw [List.take_succ_cons] at hdir hopen hpass
    obtain ⟨found, hfound, hdir⟩ := Node.at?_cons.mp hdir
    obtain rfl : child = found := by simpa [hchild] using hfound
    simp only [List.append_assoc, List.singleton_append]
    exact ⟨dir, hdir, hopen, hpass (Nat.succ_pos n)⟩
  obtain ⟨dir, hdir, _, hdrops, hexcludes⟩ := hbelow 0 (List.length_pos_iff.mpr hne)
  obtain rfl : child = dir := by simpa [Node.at?] using hdir
  simp only [List.take_zero, List.append_nil] at hdrops hexcludes
  obtain ⟨found, hfound, hrest⟩ := Node.at?_cons.mp h.at_eq
  obtain rfl : child = found := by simpa [hchild] using hfound
  refine ⟨hdrops, hexcludes, hne, hrest, by simpa using h.kept, fun n hn => ?_⟩
  obtain ⟨dir, hdir, hopen, hpass⟩ := hbelow n hn
  exact ⟨dir, hdir, hopen, fun _ => hpass⟩

theorem Meets.single (hopen : node.isOpen (root.under base) = true)
    (hchild : node.entries.lookup name = some child)
    (hdrops : w.drops tree root (base ++ [name]) child = false) :
    w.Meets tree root base node [name] child := by
  refine ⟨by simp, Node.at?_cons.mpr ⟨child, hchild, rfl⟩, hdrops, fun n hn => ?_⟩
  obtain rfl : n = 0 := by simpa using hn
  exact ⟨node, rfl, by simpa using hopen, fun h => absurd h (Nat.lt_irrefl 0)⟩

/-- An entry below one that is met and not excluded is met if its directory is open. -/
theorem Meets.cons (hopen : node.isOpen (root.under base) = true)
    (hchild : node.entries.lookup name = some child)
    (hdrops : w.drops tree root (base ++ [name]) child = false)
    (hexcludes : w.excludes (base ++ [name]) = false)
    (h : w.Meets tree root (base ++ [name]) child rest target) :
    w.Meets tree root base node (name :: rest) target := by
  refine ⟨by simp, Node.at?_cons.mpr ⟨child, hchild, h.at_eq⟩, by simpa using h.kept, ?_⟩
  intro n hn
  cases n with
  | zero => exact ⟨node, rfl, by simpa using hopen, fun h => absurd h (Nat.lt_irrefl 0)⟩
  | succ n =>
    obtain ⟨dir, hdir, hopen, hpass⟩ := h.through n (by simpa using hn)
    simp only [List.append_assoc, List.singleton_append] at hopen hpass
    refine ⟨dir, Node.at?_cons.mpr ⟨child, hchild, hdir⟩, hopen, fun _ => ?_⟩
    cases n with
    | zero =>
      -- the first directory on the way: that it passes is not part of what is met below it
      obtain rfl : child = dir := by simpa [Node.at?] using hdir
      exact ⟨by simpa using hdrops, by simpa using hexcludes⟩
    | succ n => exact hpass (Nat.succ_pos n)

/-- Being met, one directory at a time. -/
theorem meets_cons_iff :
    w.Meets tree root base node (name :: rest) target ↔
      node.isOpen (root.under base) = true ∧
      ∃ child, node.entries.lookup name = some child ∧
        w.drops tree root (base ++ [name]) child = false ∧
        (rest = [] ∧ child = target ∨
          w.excludes (base ++ [name]) = false ∧
            w.Meets tree root (base ++ [name]) child rest target) := by
  constructor
  · intro h
    obtain ⟨child, hchild, hrest⟩ := Node.at?_cons.mp h.at_eq
    refine ⟨h.isOpen, child, hchild, ?_⟩
    by_cases hne : rest = []
    · subst hne
      obtain rfl : child = target := by simpa [Node.at?] using hrest
      exact ⟨h.kept, .inl ⟨rfl, rfl⟩⟩
    · obtain ⟨hdrops, hexcludes, hbelow⟩ := h.tail hne hchild
      exact ⟨hdrops, .inr ⟨hexcludes, hbelow⟩⟩
  · rintro ⟨hopen, child, hchild, hdrops, ⟨rfl, rfl⟩ | ⟨hexcludes, h⟩⟩
    · exact .single hopen hchild hdrops
    · exact .cons hopen hchild hdrops hexcludes h

end

/-! ## Putting entries in order -/

theorem mem_inNameOrder {met : List (Name × List Entry)} {e : Entry} :
    e ∈ inNameOrder met ↔ ∃ m ∈ met, e ∈ m.2 := by
  simp only [inNameOrder, List.mem_flatMap, List.mem_mergeSort]

/-- Different names, sorted, are strictly increasing. -/
theorem pairwise_mergeSort_names {met : List (Name × List Entry)} (h : (met.map (·.1)).Nodup) :
    (met.mergeSort fun a b => (compare a.1 b.1).isLE).Pairwise
      fun a b => compare a.1 b.1 = .lt := by
  have htrans (a b c : Name × List Entry) (hab : (compare a.1 b.1).isLE = true)
      (hbc : (compare b.1 c.1).isLE = true) : (compare a.1 c.1).isLE = true :=
    Std.TransOrd.isLE_trans hab hbc
  have htotal (a b : Name × List Entry) :
      ((compare a.1 b.1).isLE || (compare b.1 a.1).isLE) = true := by
    rw [Std.OrientedOrd.eq_swap (a := b.1)]
    cases compare a.1 b.1 <;> rfl
  have hsorted : (met.mergeSort fun a b => (compare a.1 b.1).isLE).Pairwise
      fun a b => (compare a.1 b.1).isLE = true :=
    List.pairwise_mergeSort htrans htotal met
  have hnodup : ((met.mergeSort fun a b => (compare a.1 b.1).isLE).map (·.1)).Nodup :=
    ((List.mergeSort_perm met _).map _).nodup_iff.mpr h
  refine (hsorted.and (List.pairwise_map.mp hnodup)).imp ?_
  rintro a b ⟨hle, hne⟩
  cases hcompare : compare a.1 b.1 with
  | lt => rfl
  | eq => exact absurd (Std.LawfulEqOrd.eq_of_compare hcompare) hne
  | gt => simp [hcompare] at hle

/-- A relation that holds within each group and from group to group holds along the whole list. -/
theorem pairwise_inNameOrder {R : Entry → Entry → Prop} {met : List (Name × List Entry)}
    (hnames : (met.map (·.1)).Nodup) (heach : ∀ m ∈ met, m.2.Pairwise R)
    (hacross : ∀ m ∈ met, ∀ m' ∈ met, compare m.1 m'.1 = .lt → ∀ a ∈ m.2, ∀ b ∈ m'.2, R a b) :
    (inNameOrder met).Pairwise R := by
  rw [inNameOrder, List.pairwise_flatMap]
  refine ⟨fun m hm => heach m (List.mem_mergeSort.mp hm), ?_⟩
  refine (pairwise_mergeSort_names hnames).imp_of_mem ?_
  intro m m' hm hm' hlt
  exact hacross m (List.mem_mergeSort.mp hm) m' (List.mem_mergeSort.mp hm') hlt

/-! ## The walk meets what it should -/

/-- What is met at one entry of a directory. -/
def metAt (w : Walker) (tree : FileTree) (layers : List IgnoreLayer) (path : Path)
    (trail : List Name) (name : Name) (node : Node) : List Entry :=
  if IgnoreLayer.drops layers (trail ++ [name]) node.isDir then []
  else ⟨trail ++ [name], node⟩ ::
    if w.excludes (trail ++ [name]) then []
    else w.below tree layers (path.join name) (trail ++ [name]) node

theorem belowEach_eq_map (w : Walker) (tree : FileTree) (layers : List IgnoreLayer) (path : Path)
    (trail : List Name) (entries : List (Name × Node)) :
    w.belowEach tree layers path trail entries =
      entries.map fun e => (e.1, w.metAt tree layers path trail e.1 e.2) := by
  induction entries with
  | nil => rfl
  | cons e rest ih =>
    obtain ⟨name, node⟩ := e
    rw [belowEach, ih]
    rfl

/-- What is met below a node, without the mutual recursion: an open directory gives what is met at
    each of its entries, in the order of names. -/
theorem below_eq (w : Walker) (tree : FileTree) (layers : List IgnoreLayer) (path : Path)
    (trail : List Name) (node : Node) :
    w.below tree layers path trail node =
      if node.isOpen path then
        inNameOrder (node.entries.map fun e =>
          (e.1, w.metAt tree (w.enter tree layers path trail.length) path trail e.1 e.2))
      else [] := by
  cases node with
  | dir access entries =>
    rw [below, FileTree.openAt, belowEach_eq_map]
    cases hlong : FileTree.isTooLong path <;> cases hread : access.read <;>
      simp [Node.isOpen, hlong, hread, Node.entries]
  | file access content => simp [below, Node.isOpen]
  | link target => simp [below, Node.isOpen]
  | fifo => simp [below, Node.isOpen]
  | device d => simp [below, Node.isOpen]

theorem layersIn_nil (w : Walker) (tree : FileTree) (root : Path) :
    w.layersIn tree root [] = w.enter tree [] root 0 := by
  simp [layersIn, enter, Path.under]

/-- The ignore files that count in a directory are those of the directory above and its own. -/
theorem layersIn_concat (w : Walker) (tree : FileTree) (root : Path) (trail : List Name)
    (name : Name) :
    w.layersIn tree root (trail ++ [name]) =
      w.enter tree (w.layersIn tree root trail) (root.under (trail ++ [name]))
        (trail ++ [name]).length := by
  rw [layersIn, layersIn, enter]
  split
  · have hinner : (List.range (trail.length + 1)).reverse.map
          (fun n => IgnoreLayer.read tree (root.under ((trail ++ [name]).take n)) n) =
        (List.range (trail.length + 1)).reverse.map
          (fun n => IgnoreLayer.read tree (root.under (trail.take n)) n) := by
      refine List.map_congr_left fun n hn => ?_
      have hle : n ≤ trail.length := by simpa [Nat.lt_succ_iff] using hn
      rw [List.take_append_of_le_length hle]
    rw [List.length_append, List.length_singleton, List.range_succ, List.reverse_append,
      List.reverse_singleton, List.singleton_append, List.map_cons, hinner,
      List.take_of_length_le (by simp)]
  · rfl

section

variable {w : Walker} {tree : FileTree} {root : Path}

theorem under_concat (root : Path) (trail : List Name) (name : Name) :
    (root.under trail).join name = root.under (trail ++ [name]) := by
  simp [Path.under]

/-- An entry that is not dropped is met, and if it is not excluded either, so is what is below it.
    -/
theorem mem_metAt_iff {trail : List Name} {name : Name} {node : Node} {e : Entry} :
    e ∈ w.metAt tree (w.layersIn tree root trail) (root.under trail) trail name node ↔
      w.drops tree root (trail ++ [name]) node = false ∧
        (e = ⟨trail ++ [name], node⟩ ∨
          w.excludes (trail ++ [name]) = false ∧
            e ∈ w.below tree (w.layersIn tree root trail) (root.under (trail ++ [name]))
              (trail ++ [name]) node) := by
  have hdrops : w.drops tree root (trail ++ [name]) node =
      IgnoreLayer.drops (w.layersIn tree root trail) (trail ++ [name]) node.isDir := by
    simp [drops]
  rw [metAt, under_concat, hdrops]
  cases IgnoreLayer.drops (w.layersIn tree root trail) (trail ++ [name]) node.isDir <;>
    cases w.excludes (trail ++ [name]) <;> simp

/-- What a walk meets, one directory at a time. -/
theorem mem_below_step {node : Node} {trail : List Name} {layers : List IgnoreLayer}
    (hlayers : w.enter tree layers (root.under trail) trail.length = w.layersIn tree root trail)
    {e : Entry} :
    e ∈ w.below tree layers (root.under trail) trail node ↔
      node.isOpen (root.under trail) = true ∧
      ∃ name child, (name, child) ∈ node.entries ∧
        w.drops tree root (trail ++ [name]) child = false ∧
        (e = ⟨trail ++ [name], child⟩ ∨
          w.excludes (trail ++ [name]) = false ∧
            e ∈ w.below tree (w.layersIn tree root trail) (root.under (trail ++ [name]))
              (trail ++ [name]) child) := by
  rw [below_eq, hlayers]
  cases node.isOpen (root.under trail) with
  | false => simp
  | true =>
    rw [if_pos rfl, mem_inNameOrder]
    constructor
    · rintro ⟨m, hm, he⟩
      obtain ⟨⟨name, child⟩, hchild, rfl⟩ := List.mem_map.mp hm
      exact ⟨rfl, name, child, hchild, mem_metAt_iff.mp he⟩
    · rintro ⟨_, name, child, hchild, he⟩
      exact ⟨_, List.mem_map_of_mem hchild, mem_metAt_iff.mpr he⟩

/-- A walk meets below a node exactly the entries that can be met from there. -/
theorem mem_below_iff {node : Node} (hnode : node.isWellFormed = true) {trail : List Name}
    {layers : List IgnoreLayer}
    (hlayers : w.enter tree layers (root.under trail) trail.length = w.layersIn tree root trail)
    {e : Entry} :
    e ∈ w.below tree layers (root.under trail) trail node ↔
      ∃ rest, e.trail = trail ++ rest ∧ w.Meets tree root trail node rest e.node := by
  induction node using Node.induction generalizing trail layers with
  | step node ih =>
    obtain ⟨hnames, hentries⟩ := Node.isWellFormed_iff.mp hnode
    -- the layers change from directory to directory, so the hypothesis is used at each entry's own
    have hbelow (name : Name) (child : Node) (hchild : (name, child) ∈ node.entries) :=
      ih (name, child) hchild (hentries _ hchild).2 (layersIn_concat w tree root trail name).symm
    rw [mem_below_step hlayers]
    constructor
    · rintro ⟨hopen, name, child, hchild, hdrops, hcase⟩
      have hlookup := (Node.lookup_eq_some_iff_mem hnames).mpr hchild
      rcases hcase with rfl | ⟨hexcludes, he⟩
      · exact ⟨[name], rfl, .single hopen hlookup hdrops⟩
      · obtain ⟨rest, htrail, hmeets⟩ := (hbelow name child hchild).mp he
        refine ⟨name :: rest, by simpa using htrail, ?_⟩
        exact .cons hopen hlookup hdrops hexcludes hmeets
    · rintro ⟨rest, htrail, hmeets⟩
      obtain ⟨name, rest, rfl⟩ := List.exists_cons_of_ne_nil hmeets.ne_nil
      obtain ⟨hopen, child, hlookup, hdrops, hcase⟩ := meets_cons_iff.mp hmeets
      have hchild := Node.lookup_mem hlookup
      refine ⟨hopen, name, child, hchild, hdrops, ?_⟩
      rcases hcase with ⟨rfl, rfl⟩ | ⟨hexcludes, hmeets⟩
      · exact .inl (by rw [← htrail])
      · refine .inr ⟨hexcludes, (hbelow name child hchild).mpr ⟨rest, ?_, hmeets⟩⟩
        simpa using htrail

/-! ## The walk goes in order -/

theorem compare_append_cons_lt {trail : List Name} {name name' : Name}
    (h : compare name name' = .lt) (rest rest' : List Name) :
    compare (trail ++ name :: rest) (trail ++ name' :: rest') = .lt := by
  rw [Path.compare_append_left, List.compare_cons_cons, h]
  rfl

theorem compare_append_lt {rest : List Name} (h : rest ≠ []) (trail : List Name) :
    compare trail (trail ++ rest) = .lt := by
  obtain ⟨name, rest, rfl⟩ := List.exists_cons_of_ne_nil h
  have hcompare := Path.compare_append_left trail [] (name :: rest)
  rw [List.append_nil] at hcompare
  exact hcompare

theorem trail_of_mem_metAt {trail : List Name} {name : Name} {node : Node}
    (hnode : node.isWellFormed = true) {e : Entry}
    (h : e ∈ w.metAt tree (w.layersIn tree root trail) (root.under trail) trail name node) :
    ∃ rest, e.trail = trail ++ name :: rest := by
  obtain ⟨_, rfl | ⟨_, h⟩⟩ := mem_metAt_iff.mp h
  · exact ⟨[], rfl⟩
  · obtain ⟨rest, htrail, _⟩ :=
      (mem_below_iff hnode (layersIn_concat w tree root trail name).symm).mp h
    exact ⟨rest, by simpa using htrail⟩

/-- An entry comes before all that is below it. -/
theorem metAt_increasing {trail : List Name} {name : Name} {node : Node}
    (hnode : node.isWellFormed = true)
    (hbelow : (w.below tree (w.layersIn tree root trail) (root.under (trail ++ [name]))
      (trail ++ [name]) node).Pairwise fun a b => compare a.trail b.trail = .lt) :
    (w.metAt tree (w.layersIn tree root trail) (root.under trail) trail name node).Pairwise
      fun a b => compare a.trail b.trail = .lt := by
  rw [metAt, under_concat]
  split
  · exact .nil
  split
  · exact List.pairwise_singleton _ _
  refine List.pairwise_cons.mpr ⟨fun e he => ?_, hbelow⟩
  obtain ⟨rest, htrail, hmeets⟩ :=
    (mem_below_iff hnode (layersIn_concat w tree root trail name).symm).mp he
  rw [htrail]
  exact compare_append_lt hmeets.ne_nil _

/-- A walk meets entries in the order of their names, a directory before what is in it. -/
theorem below_increasing {node : Node} (hnode : node.isWellFormed = true) {trail : List Name}
    {layers : List IgnoreLayer}
    (hlayers : w.enter tree layers (root.under trail) trail.length = w.layersIn tree root trail) :
    (w.below tree layers (root.under trail) trail node).Pairwise
      fun a b => compare a.trail b.trail = .lt := by
  induction node using Node.induction generalizing trail layers with
  | step node ih =>
    obtain ⟨hnames, hentries⟩ := Node.isWellFormed_iff.mp hnode
    rw [below_eq, hlayers]
    split
    · refine pairwise_inNameOrder (by simpa [Function.comp_def] using hnames) ?_ ?_
      · intro m hm
        obtain ⟨⟨name, child⟩, hchild, rfl⟩ := List.mem_map.mp hm
        have hwell := (hentries _ hchild).2
        exact metAt_increasing hwell
          (ih _ hchild hwell (layersIn_concat w tree root trail name).symm)
      · intro m hm m' hm' hlt a ha b hb
        obtain ⟨⟨name, child⟩, hchild, rfl⟩ := List.mem_map.mp hm
        obtain ⟨⟨name', child'⟩, hchild', rfl⟩ := List.mem_map.mp hm'
        obtain ⟨rest, ha⟩ := trail_of_mem_metAt (hentries _ hchild).2 ha
        obtain ⟨rest', hb⟩ := trail_of_mem_metAt (hentries _ hchild').2 hb
        rw [ha, hb]
        exact compare_append_cons_lt hlt rest rest'
    · exact .nil

end

end Walker

/-! ## From a root -/

namespace FileTree

/-- What a walk of a root sees of the node that the root leads to. It goes by the absolute form of
    the root, and may not be let through to it. -/
def sight (tree : FileTree) (root : Path) (node : Node) : Node :=
  if tree.reaches root then node.seen else node.shut

/-- What a walk of a root sees. -/
def seenAt (tree : FileTree) (root : Path) : Except Fault Node :=
  (tree.node root true).map (tree.sight root)

variable {tree : FileTree} {root : Path} {node : Node}

theorem isDir_sight : (tree.sight root node).isDir = node.isDir := by
  unfold sight
  split <;> simp

/-- What a walk sees is a node of the tree, seen from where the walk starts. -/
theorem seenAt_eq_ok (h : tree.seenAt root = .ok node) :
    ∃ here, tree.node root true = .ok here ∧ node = tree.sight root here := by
  unfold seenAt at h
  cases hnode : tree.node root true with
  | error fault =>
    rw [hnode] at h
    cases h
  | ok here =>
    rw [hnode] at h
    cases h
    exact ⟨here, rfl, rfl⟩

theorem seenAt_isWellFormed (htree : tree.WellFormed) (h : tree.seenAt root = .ok node) :
    node.isWellFormed = true := by
  obtain ⟨here, hhere, rfl⟩ := seenAt_eq_ok h
  have hwell := node_isWellFormed htree hhere
  unfold sight
  split
  · exact Node.isWellFormed_seen hwell
  · exact (Node.isWellFormed_shut here).trans hwell

/-- A root is one for a walk exactly if the walk sees a directory there. -/
theorem isDir_iff_seenAt :
    tree.isDir root = true ↔ ∃ node, tree.seenAt root = .ok node ∧ node.isDir = true := by
  rw [isDir_iff]
  constructor
  · rintro ⟨here, hhere, hdir⟩
    exact ⟨tree.sight root here, by rw [seenAt, hhere]; rfl, isDir_sight.trans hdir⟩
  · rintro ⟨node, hnode, hdir⟩
    obtain ⟨here, hhere, rfl⟩ := seenAt_eq_ok hnode
    exact ⟨here, hhere, isDir_sight.symm.trans hdir⟩

end FileTree

namespace Walker

section

variable {w : Walker} {tree : FileTree} {root : Path}

theorem enter_root (w : Walker) (tree : FileTree) (root : Path) :
    w.enter tree [] (root.under []) ([] : List Name).length = w.layersIn tree root [] :=
  (w.layersIn_nil tree root).symm

section

variable (htree : tree.WellFormed) {node : Node} (hnode : tree.seenAt root = .ok node)
  (hdir : node.isDir = true)

include htree hnode hdir

/-- The walk goes by the absolute form of a root and still gets what the root leads to. -/
theorem entries_absolute :
    w.entries tree (root.absolute tree.cwdPath) =
      w.below tree [] (root.absolute tree.cwdPath) [] node := by
  obtain ⟨here, hhere, rfl⟩ := FileTree.seenAt_eq_ok hnode
  have hheredir : here.isDir = true := by simpa [FileTree.isDir_sight] using hdir
  rw [entries, FileTree.node_absolute htree hhere hheredir]
  cases hlong : FileTree.isTooLong (root.absolute tree.cwdPath) with
  | true =>
    have hclosed : (tree.sight root here).isOpen (root.absolute tree.cwdPath) = false := by
      cases tree.sight root here <;> simp [Node.isOpen, hlong]
    simp [below_eq, hclosed]
  | false =>
    cases hreaches : tree.reaches root with
    | true => simp [FileTree.sight, hreaches]
    | false => simp [FileTree.sight, hreaches, below_eq, Node.isOpen_shut]

/-- The entries of a walk are exactly those that are met on the way down from its root. -/
theorem mem_entries_iff {e : Entry} :
    e ∈ w.entries tree (root.absolute tree.cwdPath) ↔
      w.Meets tree (root.absolute tree.cwdPath) [] node e.trail e.node := by
  have hwell := FileTree.seenAt_isWellFormed htree hnode
  have hbelow := mem_below_iff hwell (enter_root w tree (root.absolute tree.cwdPath)) (e := e)
  simp only [List.nil_append, exists_eq_left'] at hbelow
  rw [entries_absolute htree hnode hdir]
  exact hbelow

/-- Entries come in the order of their trails, so a directory comes right before what is in it. -/
theorem entries_increasing :
    (w.entries tree (root.absolute tree.cwdPath)).Pairwise
      fun a b => compare a.trail b.trail = .lt := by
  have hwell := FileTree.seenAt_isWellFormed htree hnode
  rw [entries_absolute htree hnode hdir]
  exact below_increasing hwell (enter_root w tree (root.absolute tree.cwdPath))

end

end

end Walker

end DocLint
