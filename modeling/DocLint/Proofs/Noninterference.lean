-- SUMMARY: What a walk does not look at cannot change its report: two trees that look alike from the root give the same one.
import DocLint.Proofs.WalkOrder
import Mathlib

/-! # What does not matter to a walk

Two trees are walked side by side. Wherever both walks look, they find the same; where the
trees differ, neither walk looks. It is essential that names alone decide what is excluded and
what is checked, so both walks part from a branch at the same place.
-/

namespace DocLint

namespace Walker

/-! ## Looking alike -/

/-- The names in `trail` lead to two nodes, as they are seen below the same root of two trees, in
    which a walk without ignore files finds the same. -/
inductive SeenAlike (w : Walker) (root : Path) : List Name → Node → Node → Prop where
  /-- What is excluded is not looked at. A root is never excluded. -/
  | excluded {trail : List Name} {node node' : Node} :
    trail ≠ [] → w.excludes trail = true → w.SeenAlike root trail node node'
  /-- A file that is not checked is not opened. -/
  | unchecked {trail : List Name} {access access' : Access} {content content' : Bytes} :
    w.rules.isCheckable (root.under trail) = false →
      w.SeenAlike root trail (.file access content) (.file access' content')
  /-- Whether a file may be written does not matter. -/
  | file {trail : List Name} {access access' : Access} {content : Bytes} :
    access.read = access'.read →
      w.SeenAlike root trail (.file access content) (.file access' content)
  /-- A link is not followed. -/
  | link {trail : List Name} {target target' : Path} :
    w.SeenAlike root trail (.link target) (.link target')
  | fifo {trail : List Name} : w.SeenAlike root trail .fifo .fifo
  /-- A device is not opened. -/
  | device {trail : List Name} {d d' : Device} : w.SeenAlike root trail (.device d) (.device d')
  /-- Two directories have entries with the same names, and those of one name look alike. -/
  | dir {trail : List Name} {access access' : Access} {entries entries' : List (Name × Node)} :
    access.read = access'.read →
    (∀ name, name ∈ entries.map (·.1) ↔ name ∈ entries'.map (·.1)) →
    (∀ name child child', (name, child) ∈ entries → (name, child') ∈ entries' →
      w.SeenAlike root (trail ++ [name]) child child') →
    w.SeenAlike root trail (.dir access entries) (.dir access' entries')

theorem not_excluded {w : Walker} {trail : List Name}
    (hkept : trail = [] ∨ w.excludes trail = false) (hne : trail ≠ [])
    (hexcludes : w.excludes trail = true) : False := by
  rcases hkept with hnil | hkept
  · exact hne hnil
  · rw [hexcludes] at hkept
    cases hkept

/-- Two entries that are met at the same place and look alike. -/
def SameEntry (w : Walker) (root : Path) (e e' : Entry) : Prop :=
  e.trail = e'.trail ∧ w.SeenAlike root e.trail e.node e'.node

/-! ## Going through two directories -/

/-- Sorted lists of different names are the same if they have the same names. -/
theorem map_names_mergeSort {met met' : List (Name × List Entry)} (h : (met.map (·.1)).Nodup)
    (h' : (met'.map (·.1)).Nodup)
    (hsame : ∀ name, name ∈ met.map (·.1) ↔ name ∈ met'.map (·.1)) :
    (met.mergeSort fun a b => (compare a.1 b.1).isLE).map (·.1) =
      (met'.mergeSort fun a b => (compare a.1 b.1).isLE).map (·.1) := by
  have hperm (l : List (Name × List Entry)) :
      ((l.mergeSort fun a b => (compare a.1 b.1).isLE).map (·.1)).Perm (l.map (·.1)) :=
    (List.mergeSort_perm l _).map _
  have hsorted {l : List (Name × List Entry)} (h : (l.map (·.1)).Nodup) :
      ((l.mergeSort fun a b => (compare a.1 b.1).isLE).map (·.1)).Pairwise
        fun a b => compare a b = .lt :=
    List.pairwise_map.mpr (pairwise_mergeSort_names h)
  have hnames : (met.map (·.1)).Perm (met'.map (·.1)) :=
    (List.perm_ext_iff_of_nodup h h').mpr hsame
  refine ((hperm met).trans (hnames.trans (hperm met').symm)).eq_of_pairwise ?_ (hsorted h)
    (hsorted h')
  intro a b _ _ hlt hgt
  rw [Std.OrientedOrd.eq_swap, hgt] at hlt
  cases hlt

theorem forall₂_of_map_names {S : Name × List Entry → Name × List Entry → Prop}
    {met met' : List (Name × List Entry)} (hnames : met.map (·.1) = met'.map (·.1))
    (hsame : ∀ m ∈ met, ∀ m' ∈ met', m.1 = m'.1 → S m m') : List.Forall₂ S met met' := by
  induction met generalizing met' with
  | nil =>
    obtain rfl := List.map_eq_nil_iff.mp hnames.symm
    exact .nil
  | cons m met ih =>
    cases met' with
    | nil => cases hnames
    | cons m' met' =>
      obtain ⟨hname, hnames⟩ := List.cons.inj hnames
      refine .cons (hsame m List.mem_cons_self m' List.mem_cons_self hname) (ih hnames ?_)
      intro a ha b hb
      exact hsame a (List.mem_cons_of_mem _ ha) b (List.mem_cons_of_mem _ hb)

/-- Groups of the same names that are related one by one are related along the lists they make. -/
theorem forall₂_inNameOrder {R : Entry → Entry → Prop} {met met' : List (Name × List Entry)}
    (h : (met.map (·.1)).Nodup) (h' : (met'.map (·.1)).Nodup)
    (hnames : ∀ name, name ∈ met.map (·.1) ↔ name ∈ met'.map (·.1))
    (hsame : ∀ m ∈ met, ∀ m' ∈ met', m.1 = m'.1 → List.Forall₂ R m.2 m'.2) :
    List.Forall₂ R (inNameOrder met) (inNameOrder met') := by
  have hsorted := forall₂_of_map_names (S := fun m m' => List.Forall₂ R m.2 m'.2)
    (map_names_mergeSort h h' hnames) fun m hm m' hm' =>
      hsame m (List.mem_mergeSort.mp hm) m' (List.mem_mergeSort.mp hm')
  unfold inNameOrder
  exact List.rel_flatMap hsorted fun _ _ hm => hm

/-! ## Walking two trees -/

section

variable {w : Walker} {root : Path} (tree tree' : FileTree)

/-- What is met at two nodes that look alike is met in step, whatever is excluded. -/
theorem metAt_alike {trail : List Name} {name : Name} {child child' : Node}
    (h : w.SeenAlike root (trail ++ [name]) child child')
    (hbelow : w.excludes (trail ++ [name]) = false →
      List.Forall₂ (w.SameEntry root)
        (w.below tree [] (root.under (trail ++ [name])) (trail ++ [name]) child)
        (w.below tree' [] (root.under (trail ++ [name])) (trail ++ [name]) child')) :
    List.Forall₂ (w.SameEntry root) (w.metAt tree [] (root.under trail) trail name child)
      (w.metAt tree' [] (root.under trail) trail name child') := by
  have hdrops (isDir : Bool) : IgnoreLayer.drops [] (trail ++ [name]) isDir = false := rfl
  simp only [metAt, hdrops, Bool.false_eq_true, if_false, under_concat]
  refine .cons ⟨rfl, h⟩ ?_
  cases hexcludes : w.excludes (trail ++ [name]) with
  | true => exact .nil
  | false => exact hbelow hexcludes

variable (hgit : w.gitignore = false)

include hgit

/-- Without ignore files there are no layers to read. -/
theorem enter_eq_nil (layers : List IgnoreLayer) (path : Path) (depth : Nat) :
    w.enter tree layers path depth = [] := by
  simp [enter, hgit]

/-- From nodes that look alike, two walks meet the same entries in the same order. -/
theorem below_alike {trail : List Name} {node node' : Node}
    (h : w.SeenAlike root trail node node') (hkept : trail = [] ∨ w.excludes trail = false)
    (hwell : node.isWellFormed = true) (hwell' : node'.isWellFormed = true) :
    List.Forall₂ (w.SameEntry root) (w.below tree [] (root.under trail) trail node)
      (w.below tree' [] (root.under trail) trail node') := by
  induction h with
  | excluded hne hexcludes => exact (not_excluded hkept hne hexcludes).elim
  | unchecked _ => exact .nil
  | file _ => exact .nil
  | link => exact .nil
  | fifo => exact .nil
  | device => exact .nil
  | @dir trail access access' entries entries' hread hnames hchildren ih =>
    obtain ⟨hnodup, hentries⟩ := Node.isWellFormed_iff.mp hwell
    obtain ⟨hnodup', hentries'⟩ := Node.isWellFormed_iff.mp hwell'
    have hopen : (Node.dir access' entries').isOpen (root.under trail) =
        (Node.dir access entries).isOpen (root.under trail) := by
      simp [Node.isOpen, hread]
    rw [below_eq, below_eq, hopen, enter_eq_nil tree hgit, enter_eq_nil tree' hgit]
    split
    · refine forall₂_inNameOrder (by simpa [Function.comp_def] using hnodup)
        (by simpa [Function.comp_def] using hnodup')
        (by simpa [Function.comp_def, Node.entries] using hnames) ?_
      intro m hm m' hm' hname
      obtain ⟨⟨name, child⟩, hchild, rfl⟩ := List.mem_map.mp hm
      obtain ⟨⟨_, child'⟩, hchild', rfl⟩ := List.mem_map.mp hm'
      cases hname
      apply metAt_alike tree tree' (hchildren name child child' hchild hchild')
      intro hexcludes
      exact ih name child child' hchild hchild' (.inr hexcludes) (hentries _ hchild).2
        (hentries' _ hchild').2
    · exact .nil

end

end Walker

/-! ## Reports on what looks alike -/

/-- Two findings of which a report says the same. -/
inductive Finding.Alike (rules : Rules) : Finding → Finding → Prop where
  | same (f : Finding) : Alike rules f f
  | unchecked {path : Path} {content content' : Except FileTree.Fault Bytes} :
    rules.isCheckable path = false → Alike rules (.file path content) (.file path content')

namespace Report

variable {rules : Rules} {findings findings' : List Finding}

/-- A function that does not look into unchecked files cannot tell alike findings apart. -/
theorem map_of_alike {β : Type} (g : Finding → β)
    (hg : ∀ path content content', rules.isCheckable path = false →
      g (.file path content) = g (.file path content'))
    (h : List.Forall₂ (Finding.Alike rules) findings findings') :
    findings.map g = findings'.map g := by
  induction h with
  | nil => rfl
  | cons hf _ ih =>
    rw [List.map_cons, List.map_cons, ih]
    cases hf with
    | same f => rfl
    | unchecked hcheck => rw [hg _ _ _ hcheck]

/-- Nor can a report. -/
theorem ofFindings_of_alike (h : List.Forall₂ (Finding.Alike rules) findings findings') :
    ofFindings rules findings = ofFindings rules findings' := by
  have hflatMap : findings.flatMap (Finding.defects rules) =
      findings'.flatMap (Finding.defects rules) := by
    rw [List.flatMap_def, List.flatMap_def, map_of_alike _ _ h]
    intro path content content' hcheck
    simp [Finding.defects, Finding.outcome?, Rules.checkText, hcheck]
  have hcountP : findings.countP (Finding.isChecked rules) =
      findings'.countP (Finding.isChecked rules) := by
    have hchecked := map_of_alike (Finding.isChecked rules) (fun path content content' hcheck => by
      simp [Finding.isChecked, Finding.outcome?, Rules.checkText, hcheck]) h
    simpa [List.countP_map] using congrArg (List.countP id) hchecked
  have hfilterMap {β : Type} (g : Finding → Option β)
      (hg : ∀ path content content', rules.isCheckable path = false →
        g (.file path content) = g (.file path content')) :
      findings.filterMap g = findings'.filterMap g := by
    simpa [List.filterMap_map] using congrArg (List.filterMap id) (map_of_alike g hg h)
  have hunreadable := hfilterMap (Finding.unreadable? rules) fun path content content' hcheck => by
    simp [Finding.unreadable?, Finding.outcome?, Rules.checkText, hcheck]
  unfold ofFindings
  rw [hflatMap, hcountP, hunreadable, hfilterMap Finding.special? fun _ _ _ _ => rfl,
    hfilterMap Finding.excluded? fun _ _ _ _ => rfl,
    hfilterMap (Finding.unchecked? rules) fun _ _ _ _ => rfl,
    hfilterMap Finding.walkWarning? fun _ _ _ _ => rfl]

end Report

/-! ## The same report -/

namespace Walker

variable {w : Walker} {root : Path}

theorem ofNode?_alike {trail : List Name} {node node' : Node}
    (h : w.SeenAlike root trail node node') (hkept : trail = [] ∨ w.excludes trail = false) :
    Option.Rel (Finding.Alike w.rules) (Finding.ofNode? (root.under trail) node)
      (Finding.ofNode? (root.under trail) node') := by
  cases h with
  | excluded hne hexcludes => exact (not_excluded hkept hne hexcludes).elim
  | unchecked hcheck => exact .some (.unchecked hcheck)
  | file hread =>
    simp only [Finding.ofNode?, hread]
    exact .some (.same _)
  | link => exact .some (.same _)
  | fifo => exact .some (.same _)
  | device => exact .some (.same _)
  | dir hread _ _ =>
    simp only [Finding.ofNode?, hread]
    split
    · exact .none
    · exact .some (.same _)

theorem finding?_alike {e e' : Entry} (h : w.SameEntry root e e') :
    Option.Rel (Finding.Alike w.rules) (w.finding? root e) (w.finding? root e') := by
  obtain ⟨htrail, halike⟩ := h
  unfold finding?
  rw [← htrail]
  split
  · exact .some (.same _)
  · rename_i hkept
    exact ofNode?_alike halike (.inr (Bool.eq_false_iff.mpr hkept))

theorem rel_toList {R : Finding → Finding → Prop} {f f' : Option Finding}
    (h : Option.Rel R f f') : List.Forall₂ R f.toList f'.toList := by
  cases h with
  | none => exact .nil
  | some h => exact .cons h .nil

/-- What a walk does not look at does not matter to it. Without ignore files, two trees give the
    same report on a root if the root resolves to the same path, is a link in both or in neither,
    and what a walk sees there looks alike. The rest of the trees may differ in any way. -/
theorem walk_noninterference (w : Walker) (hgit : w.gitignore = false) {tree tree' : FileTree}
    (htree : tree.WellFormed) (htree' : tree'.WellFormed) {root top : Path}
    (hroot : tree.resolveRoot root = .ok top) (hroot' : tree'.resolveRoot root = .ok top)
    (hlink : tree.isLink top = tree'.isLink top) {node node' : Node}
    (hnode : tree.seenAt root = .ok node) (hnode' : tree'.seenAt root = .ok node')
    (hseen : w.SeenAlike top [] node node') :
    ∃ report, w.walk tree root = .ok report ∧ w.walk tree' root = .ok report := by
  obtain ⟨hdir, htop⟩ := FileTree.resolveRoot_eq_ok hroot
  obtain ⟨hdir', htop'⟩ := FileTree.resolveRoot_eq_ok hroot'
  refine ⟨w.reportOn tree root, w.walk_of_isDir hdir, ?_⟩
  rw [w.walk_of_isDir hdir']
  have hisDir {t : FileTree} {seen : Node} (hdir : t.isDir root = true)
      (hseen : t.seenAt root = .ok seen) : seen.isDir = true := by
    obtain ⟨other, hother, hdir⟩ := FileTree.isDir_iff_seenAt.mp hdir
    cases hother.symm.trans hseen
    exact hdir
  have hbefore : w.beforeRoot tree top = w.beforeRoot tree' top := by
    simp [beforeRoot, problemsAbove, hgit, hlink]
  have hrootFindings := rootFindings_absolute (w := w) htree hnode (hisDir hdir hnode)
  have hrootFindings' := rootFindings_absolute (w := w) htree' hnode' (hisDir hdir' hnode')
  have hentries := entries_absolute (w := w) htree hnode (hisDir hdir hnode)
  have hentries' := entries_absolute (w := w) htree' hnode' (hisDir hdir' hnode')
  rw [← htop] at hrootFindings hentries
  rw [← htop'] at hrootFindings' hentries'
  have hfindings : List.Forall₂ (Finding.Alike w.rules) (w.findings tree top)
      (w.findings tree' top) := by
    unfold findings
    apply List.rel_append
    · rw [hrootFindings, hrootFindings', hbefore]
      apply List.rel_append
      · exact List.forall₂_same.mpr fun f _ => .same f
      · exact rel_toList (ofNode?_alike hseen (.inl rfl))
    · rw [hentries, hentries']
      refine List.rel_filterMap (fun _ _ h => finding?_alike h) ?_
      exact below_alike tree tree' hgit hseen (.inl rfl) (FileTree.seenAt_isWellFormed htree hnode)
        (FileTree.seenAt_isWellFormed htree' hnode')
  rw [reportOn, reportOn, ← htop, ← htop']
  exact congrArg Except.ok (Report.ofFindings_of_alike hfindings).symm

end Walker

/-- Checks the extension `b` and excludes `x`. -/
def Walker.ofOneExclude : Walker where
  rules := ⟨["b"], ["fn"], [], "///"⟩
  exclude := [⟨"x", .wholePath, [.literal 'x']⟩]
  gitignore := false

/-- A file to check, and next to it a file, a link and a directory that are given. -/
def Node.ofSurroundings (unchecked link excluded : Node) : Node :=
  .dir .full
    [([97, 46, 98], .file .full [102, 110]), ([108], link), ([110], unchecked), ([120], excluded)]

/-- A tree with the directory `r` and something besides. -/
def FileTree.ofPair (node other : Node) : FileTree where
  root := .dir .full [([111], other), ([114], node)]
  cwd := []

/-- Two trees that share nothing but what a walk looks at: the content of an unchecked file, the
    target of a link, an excluded directory and all around the root differ. -/
theorem Walker.walk_noninterference_ofSurroundings :
    let tree := FileTree.ofPair (.ofSurroundings (.file .full [1]) (.link ⟨[111]⟩)
      (.dir .full [([97, 46, 98], .file .full [102, 110])])) .fifo
    let tree' := FileTree.ofPair (.ofSurroundings (.file .nothing [2]) (.link ⟨[47]⟩)
      (.file .nothing [])) (.dir .nothing [])
    tree.resolveRoot ⟨[114]⟩ = .ok ⟨[47, 114]⟩ ∧ tree'.resolveRoot ⟨[114]⟩ = .ok ⟨[47, 114]⟩ ∧
    ∃ report, ofOneExclude.walk tree ⟨[114]⟩ = .ok report ∧
      ofOneExclude.walk tree' ⟨[114]⟩ = .ok report := by
  intro tree tree'
  have hroot : tree.resolveRoot ⟨[114]⟩ = .ok ⟨[47, 114]⟩ := by rfl
  have hroot' : tree'.resolveRoot ⟨[114]⟩ = .ok ⟨[47, 114]⟩ := by rfl
  have hnode : tree.seenAt ⟨[114]⟩ = .ok (.ofSurroundings (.file .full [1]) (.link ⟨[111]⟩)
      (.dir .full [([97, 46, 98], .file .full [102, 110])])) := by rfl
  have hnode' : tree'.seenAt ⟨[114]⟩ = .ok (.ofSurroundings (.file .nothing [2]) (.link ⟨[47]⟩)
      (.file .nothing [])) := by rfl
  refine ⟨hroot, hroot', walk_noninterference ofOneExclude rfl (by decide) (by decide) hroot hroot'
    (by decide) hnode hnode' (.dir rfl (by exact fun _ => Iff.rfl) ?_)⟩
  intro name child child' hchild hchild'
  simp only [List.mem_cons, Prod.mk.injEq, List.not_mem_nil, or_false] at hchild hchild'
  rcases hchild with ⟨rfl, rfl⟩ | ⟨rfl, rfl⟩ | ⟨rfl, rfl⟩ | ⟨rfl, rfl⟩
  · obtain rfl : child' = .file .full [102, 110] := by simpa using hchild'
    exact .file rfl
  · obtain rfl : child' = .link ⟨[47]⟩ := by simpa using hchild'
    exact .link
  · obtain rfl : child' = .file .nothing [2] := by simpa using hchild'
    exact .unchecked (by decide)
  · exact .excluded (by decide) (by decide)

/-- The root has to be a link in both trees or in neither. Where it is one, it is listed, though
    it leads to the same directory. -/
theorem Walker.walk_lists_linked_root :
    let plain : FileTree := .ofPair (.dir .full [([97, 46, 98], .file .full [102, 110])]) .fifo
    let linked : FileTree :=
      .ofPair (.link ⟨[111]⟩) (.dir .full [([97, 46, 98], .file .full [102, 110])])
    plain.WellFormed ∧ linked.WellFormed ∧
    plain.resolveRoot ⟨[114]⟩ = .ok ⟨[47, 114]⟩ ∧ linked.resolveRoot ⟨[114]⟩ = .ok ⟨[47, 114]⟩ ∧
    (∃ node, plain.seenAt ⟨[114]⟩ = .ok node ∧ linked.seenAt ⟨[114]⟩ = .ok node ∧
      ofOneExclude.SeenAlike ⟨[47, 114]⟩ [] node node) ∧
    ∃ report report', ofOneExclude.walk plain ⟨[114]⟩ = .ok report ∧
      ofOneExclude.walk linked ⟨[114]⟩ = .ok report' ∧
      report.skipped = [] ∧ report'.skipped = [⟨⟨[47, 114]⟩, .notRegular⟩] := by
  refine ⟨by decide, by decide, by rfl, by rfl, ⟨_, by rfl, by rfl, .dir rfl (fun _ => Iff.rfl) ?_⟩,
    _, _, by rfl, by rfl, by cbv, by cbv⟩
  intro name child child' hchild hchild'
  obtain ⟨rfl, rfl⟩ := Prod.mk.inj (List.mem_singleton.mp hchild)
  obtain ⟨_, rfl⟩ := Prod.mk.inj (List.mem_singleton.mp hchild')
  exact .file rfl

end DocLint
