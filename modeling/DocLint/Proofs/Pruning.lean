-- SUMMARY: Leaving out more never adds to a report: more exclude globs or ignore files only take findings away.
import DocLint.Proofs.Settings
import DocLint.Proofs.Telling
import DocLint.Proofs.WalkOrder
import Mathlib

/-! # Pruning

Two walkers go through the same tree, and the strict one leaves out whatever the lax one leaves
out. Directory by directory the strict walk meets a sublist of what the lax walk meets, so its
report is made of sublists too. What the lax walk alone finds is at or below an entry that the
strict walk lists as excluded.
-/

namespace DocLint

namespace Walker

/-! ## Strict and lax walkers -/

/-- The walker leaves out whatever `lax` leaves out. -/
structure Within (strict lax : Walker) : Prop where
  rules : strict.rules = lax.rules
  excludes : ∀ trail, lax.excludes trail = true → strict.excludes trail = true
  gitignore : lax.gitignore = true → strict.gitignore = true

section

variable {strict lax : Walker} {tree : FileTree} {root : Path}

theorem Within.drops (h : strict.Within lax) {trail : List Name} {node : Node}
    (hdrops : lax.drops tree root trail node = true) :
    strict.drops tree root trail node = true := by
  cases hgit : lax.gitignore with
  | false => simp [Walker.drops, layersIn, hgit, IgnoreLayer.drops] at hdrops
  | true => simpa [Walker.drops, layersIn, hgit, h.gitignore hgit] using hdrops

/-! ## Walking side by side -/

/-- The order of the names does not depend on what was met at them. -/
theorem inNameOrder_sublist {entries : List (Name × Node)} {met more : Name × Node → List Entry}
    (h : ∀ e ∈ entries, (met e).Sublist (more e)) :
    (inNameOrder (entries.map fun e => (e.1, met e))).Sublist
      (inNameOrder (entries.map fun e => (e.1, more e))) := by
  have horder (met : Name × Node → List Entry) :
      inNameOrder (entries.map fun e => (e.1, met e)) =
        (entries.mergeSort fun a b => (compare a.1 b.1).isLE).flatMap met := by
    have hsorted := List.map_mergeSort (f := fun e : Name × Node => (e.1, met e)) (l := entries)
      (r := fun a b => (compare a.1 b.1).isLE) (s := fun a b => (compare a.1 b.1).isLE)
      (fun _ _ _ _ => rfl)
    rw [inNameOrder, ← hsorted, List.flatMap_map]
  rw [horder, horder]
  exact List.Sublist.flatMap_right _ fun e he => h e (List.mem_mergeSort.mp he)

/-- One step down: at an entry the stricter walker meets no more than the laxer one. -/
theorem Within.metAt_sublist (h : strict.Within lax) {trail : List Name} {name : Name}
    {node : Node}
    (hbelow : (strict.below tree (strict.layersIn tree root trail) (root.under (trail ++ [name]))
        (trail ++ [name]) node).Sublist
      (lax.below tree (lax.layersIn tree root trail) (root.under (trail ++ [name]))
        (trail ++ [name]) node)) :
    (strict.metAt tree (strict.layersIn tree root trail) (root.under trail) trail name node).Sublist
      (lax.metAt tree (lax.layersIn tree root trail) (root.under trail) trail name node) := by
  have hdrops (w : Walker) : IgnoreLayer.drops (w.layersIn tree root trail) (trail ++ [name])
      node.isDir = w.drops tree root (trail ++ [name]) node := by
    simp [Walker.drops]
  rw [metAt, metAt, hdrops, hdrops, under_concat]
  cases hstrict : strict.drops tree root (trail ++ [name]) node with
  | true => exact List.nil_sublist _
  | false =>
    have hlax : lax.drops tree root (trail ++ [name]) node = false :=
      Bool.eq_false_iff.mpr fun hlax => by simp [h.drops hlax] at hstrict
    simp only [hlax, Bool.false_eq_true, if_false]
    refine List.Sublist.cons_cons _ ?_
    cases hexcludes : strict.excludes (trail ++ [name]) with
    | true => exact List.nil_sublist _
    | false =>
      have hkept : lax.excludes (trail ++ [name]) = false :=
        Bool.eq_false_iff.mpr fun hlax => by simp [h.excludes _ hlax] at hexcludes
      simpa [hkept] using hbelow

/-- The strict walk meets part of what the lax walk meets, in the same order. -/
theorem Within.below_sublist (h : strict.Within lax) {node : Node} {trail : List Name}
    {layers layers' : List IgnoreLayer}
    (hlax : lax.enter tree layers (root.under trail) trail.length = lax.layersIn tree root trail)
    (hstrict : strict.enter tree layers' (root.under trail) trail.length =
      strict.layersIn tree root trail) :
    (strict.below tree layers' (root.under trail) trail node).Sublist
      (lax.below tree layers (root.under trail) trail node) := by
  induction node using Node.induction generalizing trail layers layers' with
  | step node ih =>
    rw [below_eq, below_eq, hlax, hstrict]
    split
    · refine inNameOrder_sublist fun e he => h.metAt_sublist ?_
      exact ih e he (layersIn_concat lax tree root trail e.1).symm
        (layersIn_concat strict tree root trail e.1).symm
    · exact List.nil_sublist _

/-- The stricter walker meets no more than the laxer one, and in the same order. -/
theorem Within.entries_sublist (h : strict.Within lax) (tree : FileTree) (root : Path) :
    (strict.entries tree root).Sublist (lax.entries tree root) := by
  rw [entries, entries]
  split
  · exact h.below_sublist (enter_root lax tree root) (enter_root strict tree root)
  · exact List.nil_sublist _

/-! ## What the strict walk does not meet -/

/-- What only the lax walk meets is below something that the strict walk excludes. -/
theorem mem_below_or_excluded (hgit : strict.gitignore = lax.gitignore) {node : Node}
    (hnode : node.isWellFormed = true) {trail : List Name} {layers layers' : List IgnoreLayer}
    (hlax : lax.enter tree layers (root.under trail) trail.length = lax.layersIn tree root trail)
    (hstrict : strict.enter tree layers' (root.under trail) trail.length =
      strict.layersIn tree root trail)
    {e : Entry} (he : e ∈ lax.below tree layers (root.under trail) trail node) :
    ∃ s ∈ strict.below tree layers' (root.under trail) trail node,
      e = s ∨ strict.excludes s.trail = true ∧ ∃ rest, e.trail = s.trail ++ rest := by
  have hdrops (trail : List Name) (child : Node) :
      strict.drops tree root trail child = lax.drops tree root trail child := by
    simp [drops, layersIn, hgit]
  induction node using Node.induction generalizing trail layers layers' with
  | step node ih =>
    obtain ⟨hopen, name, child, hchild, hkept, hcase⟩ := (mem_below_step hlax).mp he
    have hwell := ((Node.isWellFormed_iff.mp hnode).2 _ hchild).2
    have hmet : ⟨trail ++ [name], child⟩ ∈
        strict.below tree layers' (root.under trail) trail node :=
      (mem_below_step hstrict).mpr
        ⟨hopen, name, child, hchild, (hdrops _ child).trans hkept, .inl rfl⟩
    rcases hcase with rfl | ⟨_, hbelow⟩
    · exact ⟨_, hmet, .inl rfl⟩
    have hnext := (layersIn_concat lax tree root trail name).symm
    cases hexcludes : strict.excludes (trail ++ [name]) with
    | true =>
      obtain ⟨rest, hrest, _⟩ := (mem_below_iff hwell hnext).mp hbelow
      exact ⟨_, hmet, .inr ⟨hexcludes, rest, hrest⟩⟩
    | false =>
      obtain ⟨s, hs, hrelated⟩ := ih (name, child) hchild hwell hnext
        (layersIn_concat strict tree root trail name).symm hbelow
      refine ⟨s, (mem_below_step hstrict).mpr ?_, hrelated⟩
      exact ⟨hopen, name, child, hchild, (hdrops _ child).trans hkept, .inr ⟨hexcludes, hs⟩⟩

/-- What the stricter walker does not meet is below something that it excludes. -/
theorem mem_entries_or_excluded (hgit : strict.gitignore = lax.gitignore)
    (htree : tree.WellFormed) {e : Entry} (he : e ∈ lax.entries tree root) :
    ∃ s ∈ strict.entries tree root,
      e = s ∨ strict.excludes s.trail = true ∧ ∃ rest, e.trail = s.trail ++ rest := by
  rw [entries] at he ⊢
  split at he
  · rename_i node hnode
    have hwell := FileTree.node_isWellFormed htree hnode
    exact mem_below_or_excluded hgit (Node.isWellFormed_seen hwell) (enter_root lax tree root)
      (enter_root strict tree root) he
  · cases he

/-! ## Findings of both -/

theorem rootFindings_eq (hgit : strict.gitignore = lax.gitignore) :
    strict.rootFindings tree root = lax.rootFindings tree root := by
  have hproblems : strict.problemsAbove tree root = lax.problemsAbove tree root := by
    simp only [problemsAbove, hgit]
  rw [rootFindings, rootFindings, beforeRoot, beforeRoot, hproblems]

/-- An entry is the same finding for both walkers, unless the strict one excludes it. -/
theorem Within.finding?_eq (h : strict.Within lax) {e : Entry}
    (he : strict.excludes e.trail = false) : strict.finding? root e = lax.finding? root e := by
  have hlax : lax.excludes e.trail = false :=
    Bool.eq_false_iff.mpr fun hlax => by simp [h.excludes _ hlax] at he
  simp only [finding?, he, hlax]

/-- Whatever is read off findings, if nothing is read off what is excluded: the strict walk gives
    part of what the lax walk gives. -/
theorem Within.flatMap_findings_sublist (h : strict.Within lax)
    (hgit : strict.gitignore = lax.gitignore) (tree : FileTree) (root : Path) {β : Type}
    {select : Finding → List β} (hselect : ∀ path, select (.excluded path) = []) :
    ((strict.findings tree root).flatMap select).Sublist
      ((lax.findings tree root).flatMap select) := by
  have hentry (e : Entry) : ((strict.finding? root e).toList.flatMap select).Sublist
      ((lax.finding? root e).toList.flatMap select) := by
    cases he : strict.excludes e.trail with
    | true => simp [finding?, he, hselect]
    | false => rw [h.finding?_eq he]
  rw [findings, findings, rootFindings_eq hgit, List.flatMap_append, List.flatMap_append]
  refine List.Sublist.append_left ?_ _
  simp only [List.filterMap_eq_flatMap_toList, List.flatMap_assoc]
  exact (List.Sublist.flatMap_right _ fun e _ => hentry e).trans
    ((h.entries_sublist tree root).flatMap _)

/-- Whatever is selected from the findings, the stricter walker has no more of it, unless it is what
    was excluded. -/
theorem Within.filterMap_findings_sublist (h : strict.Within lax)
    (hgit : strict.gitignore = lax.gitignore) (tree : FileTree) (root : Path) {β : Type}
    {select : Finding → Option β} (hselect : ∀ path, select (.excluded path) = none) :
    ((strict.findings tree root).filterMap select).Sublist
      ((lax.findings tree root).filterMap select) := by
  simp only [List.filterMap_eq_flatMap_toList]
  exact h.flatMap_findings_sublist hgit tree root fun path => by simp [hselect]

theorem Within.filter_findings_sublist (h : strict.Within lax)
    (hgit : strict.gitignore = lax.gitignore) (tree : FileTree) (root : Path)
    {select : Finding → Bool} (hselect : ∀ path, select (.excluded path) = false) :
    ((strict.findings tree root).filter select).Sublist
      ((lax.findings tree root).filter select) := by
  rw [← List.filterMap_eq_filter]
  exact h.filterMap_findings_sublist hgit tree root fun path => by simp [hselect]

/-- Walkers that exclude the same find the same. -/
theorem findings_eq_of_excludes (hgit : strict.gitignore = lax.gitignore)
    (h : strict.Within lax) (h' : lax.Within strict) :
    strict.findings tree root = lax.findings tree root := by
  have hentries := (h.entries_sublist tree root).antisymm (h'.entries_sublist tree root)
  have hexcludes (trail : List Name) : strict.excludes trail = lax.excludes trail :=
    Bool.eq_iff_iff.mpr ⟨h'.excludes trail, h.excludes trail⟩
  have hfinding : strict.finding? root = lax.finding? root := by
    funext e
    simp only [finding?, hexcludes]
  rw [findings, findings, rootFindings_eq hgit, hentries, hfinding]

/-- A file that the strict walk lost is at or below something it excludes. -/
theorem Within.listed_under_excluded (h : strict.Within lax)
    (hgit : strict.gitignore = lax.gitignore) (htree : tree.WellFormed)
    (hroot : tree.isDir root = true) {f : Finding} {path : Path}
    (hf : f ∈ lax.findings tree (root.absolute tree.cwdPath)) (hpath : f.listed? = some path)
    (hlost : f ∉ strict.findings tree (root.absolute tree.cwdPath)) :
    ∃ p names, .excluded p ∈ strict.findings tree (root.absolute tree.cwdPath) ∧
      (∀ name ∈ names, Path.IsName name) ∧ path = p.under names := by
  obtain ⟨node, hnode, hdir⟩ := FileTree.isDir_iff_seenAt.mp hroot
  rcases List.mem_append.mp hf with hf | hf
  · rw [← rootFindings_eq hgit] at hf
    exact absurd (List.mem_append_left _ hf) hlost
  obtain ⟨e, he, hfinding⟩ := List.mem_filterMap.mp hf
  have hunder := Finding.listed?_finding? hfinding path hpath
  have hexcluded {s : Entry} (hs : s ∈ strict.entries tree (root.absolute tree.cwdPath))
      (hexcludes : strict.excludes s.trail = true) :
      .excluded ((root.absolute tree.cwdPath).under s.trail) ∈
        strict.findings tree (root.absolute tree.cwdPath) :=
    List.mem_append_right _ (List.mem_filterMap.mpr ⟨s, hs, by simp [finding?, hexcludes]⟩)
  obtain ⟨s, hs, rfl | ⟨hexcludes, rest, hrest⟩⟩ := mem_entries_or_excluded hgit htree he
  · cases hexcludes : strict.excludes e.trail with
    | true => exact ⟨_, [], hexcluded hs hexcludes, by simp, hunder⟩
    | false =>
      rw [← h.finding?_eq hexcludes] at hfinding
      exact absurd (List.mem_append_right _ (List.mem_filterMap.mpr ⟨e, hs, hfinding⟩)) hlost
  · have hmeets := (mem_entries_iff htree hnode hdir).mp he
    have hnames := Node.isName_of_at? (FileTree.seenAt_isWellFormed htree hnode) hmeets.at_eq
    refine ⟨_, rest, hexcluded hs hexcludes, fun name hname => hnames name ?_, ?_⟩
    · rw [hrest]
      exact List.mem_append_right _ hname
    · rw [hunder, hrest, Path.under, Path.under, Path.under, List.foldl_append]

end

end Walker

/-! ## Reports of findings -/

namespace Report

theorem filter_block {select : Finding → Option Skipped} {reason : SkipReason}
    (h : ∀ f s, select f = some s → s.reason = reason ∧ f.listed? = some s.path)
    (findings : List Finding) :
    (findings.filterMap select).filter (·.reason ≠ .excluded) =
      if reason = .excluded then [] else findings.filterMap select := by
  have hreason : ∀ s ∈ findings.filterMap select, s.reason = reason := by
    intro s hs
    obtain ⟨f, _, hf⟩ := List.mem_filterMap.mp hs
    exact (h f s hf).1
  split
  · rename_i hexcluded
    exact List.filter_eq_nil_iff.mpr fun s hs => by simp [hreason s hs, hexcluded]
  · rename_i hkept
    exact List.filter_eq_self.mpr fun s hs => by simp [hreason s hs, hkept]

/-- Without what is excluded, two blocks of skipped entries are left. -/
theorem ofFindings_skipped_kept (rules : Rules) (findings : List Finding) :
    (ofFindings rules findings).skipped.filter (·.reason ≠ .excluded) =
      findings.filterMap Finding.special? ++ findings.filterMap (Finding.unchecked? rules) := by
  rw [ofFindings, List.filter_append, List.filter_append, filter_block Finding.special?_listed,
    filter_block Finding.excluded?_listed, filter_block (Finding.unchecked?_listed rules)]
  simp

/-- The count does not grow, as long as it does not run over. -/
theorem ofFindings_filesChecked_le (rules : Rules) {findings more : List Finding}
    (h : (findings.filter (Finding.isChecked rules)).Sublist
      (more.filter (Finding.isChecked rules)))
    (hfew : more.length < UInt64.size) :
    (ofFindings rules findings).filesChecked ≤ (ofFindings rules more).filesChecked := by
  have hle : findings.countP (Finding.isChecked rules) ≤ more.countP (Finding.isChecked rules) := by
    rw [List.countP_eq_length_filter, List.countP_eq_length_filter]
    exact h.length_le
  have hlt : more.countP (Finding.isChecked rules) < UInt64.size :=
    Nat.lt_of_le_of_lt List.countP_le_length hfew
  rw [ofFindings, ofFindings, UInt64.le_iff_toNat_le, UInt64.toNat_ofNat_of_lt' hlt,
    UInt64.toNat_ofNat_of_lt' (Nat.lt_of_le_of_lt hle hlt)]
  exact hle

/-- Every list of a report grows with the findings. -/
theorem ofFindings_of_sublist (rules : Rules) {findings more : List Finding}
    (h : findings.Sublist more) :
    (ofFindings rules findings).defects.Sublist (ofFindings rules more).defects ∧
    (ofFindings rules findings).skipped.Sublist (ofFindings rules more).skipped ∧
    (ofFindings rules findings).warnings.Sublist (ofFindings rules more).warnings :=
  ⟨h.flatMap _, ((h.filterMap _).append (h.filterMap _)).append (h.filterMap _),
    (h.filterMap _).append (h.filterMap _)⟩

end Report

/-! ## Making walkers -/

namespace Glob

/-- A set can be made if none of its globs that need an expression nests too deep. -/
theorem setError?_eq_none_iff {globs : List Glob} :
    setError? globs = none ↔
      ∀ g ∈ globs, g.lookup = .extension ∨ g.lookup = .expression → g.isTooDeep = false := by
  rw [setError?]
  split
  · rename_i g hfound
    have hdeep := List.find?_some hfound
    have hmem := List.mem_of_find?_eq_some hfound
    grind
  · rename_i hnone
    simp only [List.find?_eq_none] at hnone
    simp only [Option.map_eq_none_iff, List.findIdx?_eq_none_iff, List.mem_filter]
    grind

theorem mem_of_mapM_parse {patterns : List String} {globs : List Glob}
    (h : patterns.mapM (parse .wholePath) = .ok globs) :
    (∀ pattern ∈ patterns, ∃ glob ∈ globs, parse .wholePath pattern = .ok glob) ∧
    ∀ glob ∈ globs, ∃ pattern ∈ patterns, parse .wholePath pattern = .ok glob := by
  induction patterns generalizing globs with
  | nil =>
    obtain rfl : [] = globs := Except.ok.inj h
    simp
  | cons pattern patterns ih =>
    rw [List.mapM_cons] at h
    cases hparse : parse .wholePath pattern with
    | error e =>
      rw [hparse] at h
      cases h
    | ok glob =>
      rw [hparse] at h
      cases hrest : patterns.mapM (parse .wholePath) with
      | error e =>
        rw [hrest] at h
        cases h
      | ok rest =>
        rw [hrest] at h
        obtain rfl : glob :: rest = globs := Except.ok.inj h
        obtain ⟨hpatterns, hglobs⟩ := ih hrest
        grind

end Glob

namespace Walker

theorem make_eq_ok_iff {rules : Rules} {patterns : List String} {gitignore : Bool} {w : Walker} :
    make rules patterns gitignore = .ok w ↔
      ∃ globs, patterns.mapM (Glob.parse .wholePath) = .ok globs ∧
        Glob.setError? globs = none ∧ w = ⟨rules, globs, gitignore⟩ := by
  rw [make]
  cases patterns.mapM (Glob.parse .wholePath) with
  | error e => simp
  | ok globs =>
    cases hset : Glob.setError? globs with
    | some e => simp [hset]
    | none => simp [hset, eq_comm]

/-- With fewer patterns a walker can be made too, and it leaves out less. -/
theorem exists_make {rules : Rules} {fewer more : List String} {gitignore : Bool} {strict : Walker}
    (hsub : fewer ⊆ more) (h : make rules more gitignore = .ok strict) :
    ∃ lax, make rules fewer gitignore = .ok lax ∧ strict.Within lax ∧
      strict.gitignore = lax.gitignore := by
  obtain ⟨globs, hglobs, hset, rfl⟩ := make_eq_ok_iff.mp h
  obtain ⟨hparse, _⟩ := Glob.mem_of_mapM_parse hglobs
  obtain ⟨fewerGlobs, hfewer⟩ := Config.exists_mapM_parse fun pattern hpattern =>
    have ⟨glob, _, hglob⟩ := hparse pattern (hsub hpattern)
    ⟨glob, hglob⟩
  have hmem : ∀ glob ∈ fewerGlobs, glob ∈ globs := by
    intro glob hglob
    obtain ⟨pattern, hpattern, hread⟩ := (Glob.mem_of_mapM_parse hfewer).2 glob hglob
    obtain ⟨glob', hglob', hread'⟩ := hparse pattern (hsub hpattern)
    rw [hread] at hread'
    rwa [Except.ok.inj hread']
  have hset' : Glob.setError? fewerGlobs = none :=
    Glob.setError?_eq_none_iff.mpr fun g hg => Glob.setError?_eq_none_iff.mp hset g (hmem g hg)
  refine ⟨⟨rules, fewerGlobs, gitignore⟩, make_eq_ok_iff.mpr ⟨fewerGlobs, hfewer, hset', rfl⟩,
    ⟨rfl, fun trail htrail => ?_, id⟩, rfl⟩
  obtain ⟨glob, hglob, hmatch⟩ := List.any_eq_true.mp htrail
  exact List.any_eq_true.mpr ⟨glob, hmem glob hglob, hmatch⟩

/-! ## Ignore files -/

theorem findings_of_gitignore (w : Walker) (tree : FileTree) (root : Path) :
    let on : Walker := { w with gitignore := true }
    let off : Walker := { w with gitignore := false }
    ∃ rest, on.findings tree root =
        (if on.problemsAbove tree root = [] then []
          else [.faulty (on.problemsAbove tree root)]) ++ rest ∧
      rest.Sublist (off.findings tree root) := by
  intro on off
  have hwithin : on.Within off := ⟨rfl, fun _ => id, fun _ => rfl⟩
  have hfinding : on.finding? root = off.finding? root := rfl
  have hoff : off.problemsAbove tree root = [] := rfl
  refine ⟨off.rootFindings tree root ++ (on.entries tree root).filterMap (on.finding? root), ?_, ?_⟩
  · simp [findings, rootFindings, beforeRoot, hoff]
  · rw [findings, hfinding]
    exact ((hwithin.entries_sublist tree root).filterMap _).append_left _

theorem report_of_gitignore (w : Walker) (tree : FileTree) (root : Path) :
    let on : Walker := { w with gitignore := true }
    let off : Walker := { w with gitignore := false }
    (on.report tree root).defects.Sublist (off.report tree root).defects ∧
    (on.report tree root).skipped.Sublist (off.report tree root).skipped ∧
    ∃ warnings, warnings.Sublist (off.report tree root).warnings ∧
      (on.report tree root).warnings = (if on.problemsAbove tree root = [] then []
        else [faultyWarning (on.problemsAbove tree root)]) ++ warnings := by
  intro on off
  obtain ⟨rest, hrest, hsublist⟩ := w.findings_of_gitignore tree root
  obtain ⟨hdefects, hskipped, hwarnings⟩ := Report.ofFindings_of_sublist w.rules hsublist
  rw [report, hrest]
  split
  · exact ⟨hdefects, hskipped, _, hwarnings, rfl⟩
  · exact ⟨hdefects, hskipped, _, hwarnings, rfl⟩

/-- A defect that is lost is at or below something that is listed as excluded. -/
theorem Within.defects_under_excluded {strict lax : Walker} (h : strict.Within lax)
    (hgit : strict.gitignore = lax.gitignore) {tree : FileTree} (htree : tree.WellFormed)
    {root : Path} (hroot : tree.isDir root = true) {d : Defect}
    (hd : d ∈ (lax.reportOn tree root).defects) (hlost : d ∉ (strict.reportOn tree root).defects) :
    ∃ s ∈ (strict.reportOn tree root).skipped, s.reason = .excluded ∧
      ∃ names, (∀ name ∈ names, Path.IsName name) ∧ d.file = s.path.under names := by
  obtain ⟨f, hf, hdf⟩ := List.mem_flatMap.mp hd
  have hgone : f ∉ strict.findings tree (root.absolute tree.cwdPath) := by
    intro hkept
    rw [← h.rules] at hdf
    exact hlost (List.mem_flatMap.mpr ⟨f, hkept, hdf⟩)
  obtain ⟨p, names, hp, hnames, hfile⟩ := h.listed_under_excluded hgit htree hroot hf
    (Finding.listed?_of_mem_defects hdf) hgone
  refine ⟨⟨p, .excluded⟩, ?_, rfl, names, hnames, hfile⟩
  have hblock : ⟨p, .excluded⟩ ∈
      (strict.findings tree (root.absolute tree.cwdPath)).filterMap Finding.excluded? :=
    List.mem_filterMap.mpr ⟨_, hp, rfl⟩
  exact List.mem_append_left _ (List.mem_append_right _ hblock)

/-- Leaving out more never adds to a report. With more exclude patterns a walk reports sublists of
    what it reports with fewer, and each defect that is lost is at or below an entry that is listed
    as excluded instead. The order of the patterns does not matter. With ignore files in force the
    report is made of sublists too, but for one warning about such files above the root. -/
theorem walk_monotone {rules : Rules} {fewer more : List String} {gitignore : Bool}
    {strict : Walker} (hsub : fewer ⊆ more) (hmake : make rules more gitignore = .ok strict)
    {tree : FileTree} {root : Path} (hroot : tree.isDir root = true) :
    (∃ lax full part, make rules fewer gitignore = .ok lax ∧
      lax.walk tree root = .ok full ∧ strict.walk tree root = .ok part ∧
      part.defects.Sublist full.defects ∧ part.warnings.Sublist full.warnings ∧
      (part.skipped.filter (·.reason ≠ .excluded)).Sublist
        (full.skipped.filter (·.reason ≠ .excluded)) ∧
      ((lax.findings tree (root.absolute tree.cwdPath)).length < UInt64.size →
        part.filesChecked ≤ full.filesChecked) ∧
      (tree.WellFormed → ∀ d ∈ full.defects, d ∉ part.defects →
        ∃ s ∈ part.skipped, s.reason = .excluded ∧
          ∃ names, (∀ name ∈ names, Path.IsName name) ∧ d.file = s.path.under names) ∧
      (more ⊆ fewer → part = full)) ∧
    ∃ off on full part, make rules more false = .ok off ∧ make rules more true = .ok on ∧
      off.walk tree root = .ok full ∧ on.walk tree root = .ok part ∧
      part.defects.Sublist full.defects ∧ part.skipped.Sublist full.skipped ∧
      ∃ warnings, warnings.Sublist full.warnings ∧
        part.warnings = (if on.problemsAbove tree (root.absolute tree.cwdPath) = [] then []
          else [faultyWarning (on.problemsAbove tree (root.absolute tree.cwdPath))]) ++ warnings := by
  obtain ⟨lax, hlax, hwithin, hgit⟩ := exists_make hsub hmake
  constructor
  · refine ⟨lax, _, _, hlax, lax.walk_of_isDir hroot, strict.walk_of_isDir hroot, ?_, ?_, ?_, ?_,
      fun htree d => hwithin.defects_under_excluded hgit htree hroot, fun hmore => ?_⟩
    all_goals simp only [reportOn, report, hwithin.rules]
    · exact hwithin.flatMap_findings_sublist hgit tree _ fun _ => rfl
    · exact (hwithin.filterMap_findings_sublist hgit tree _ fun _ => rfl).append
        (hwithin.filterMap_findings_sublist hgit tree _ fun _ => rfl)
    · rw [Report.ofFindings_skipped_kept, Report.ofFindings_skipped_kept]
      exact (hwithin.filterMap_findings_sublist hgit tree _ fun _ => rfl).append
        (hwithin.filterMap_findings_sublist hgit tree _ fun _ => rfl)
    · exact Report.ofFindings_filesChecked_le _
        (hwithin.filter_findings_sublist hgit tree _ fun _ => rfl)
    · obtain ⟨strict', hstrict', hwithin', _⟩ := exists_make hmore hlax
      obtain rfl : strict' = strict := Except.ok.inj (hstrict'.symm.trans hmake)
      rw [findings_eq_of_excludes hgit hwithin hwithin']
  · obtain ⟨globs, hglobs, hset, rfl⟩ := make_eq_ok_iff.mp hmake
    refine ⟨⟨rules, globs, false⟩, ⟨rules, globs, true⟩, _, _,
      make_eq_ok_iff.mpr ⟨globs, hglobs, hset, rfl⟩, make_eq_ok_iff.mpr ⟨globs, hglobs, hset, rfl⟩,
      walk_of_isDir _ hroot, walk_of_isDir _ hroot, ?_⟩
    exact report_of_gitignore ⟨rules, globs, gitignore⟩ tree (root.absolute tree.cwdPath)

end Walker

/-- A file to check, and two more of them in the directory `x`. -/
def FileTree.ofNested : FileTree where
  root := .dir .full
    [([97, 46, 98], .file .full [102, 110]),
      ([120], .dir .full [([97, 46, 98], .file .full [102, 110]), ([99, 46, 98], .file .full [])])]
  cwd := []

/-- The longer list excludes `x` as well, and the defect below it is lost. -/
theorem Walker.walk_monotone_ofNested :
    ["y"] ⊆ ["x", "y"] ∧ FileTree.ofNested.isDir ⟨[47]⟩ = true ∧
    ∃ lax strict full part, make ⟨["b"], ["fn"], [], "///"⟩ ["y"] false = .ok lax ∧
      make ⟨["b"], ["fn"], [], "///"⟩ ["x", "y"] false = .ok strict ∧
      lax.walk .ofNested ⟨[47]⟩ = .ok full ∧ strict.walk .ofNested ⟨[47]⟩ = .ok part ∧
      part.defects.Sublist full.defects ∧ part.defects = [⟨⟨[47, 97, 46, 98]⟩, 1⟩] ∧
      full.defects = [⟨⟨[47, 97, 46, 98]⟩, 1⟩, ⟨⟨[47, 120, 47, 97, 46, 98]⟩, 1⟩] := by
  have hlax : make ⟨["b"], ["fn"], [], "///"⟩ ["y"] false =
      .ok ⟨⟨["b"], ["fn"], [], "///"⟩, [⟨"y", .wholePath, [.literal 'y']⟩], false⟩ := by
    cbv
  have hstrict : make ⟨["b"], ["fn"], [], "///"⟩ ["x", "y"] false =
      .ok ⟨⟨["b"], ["fn"], [], "///"⟩,
        [⟨"x", .wholePath, [.literal 'x']⟩, ⟨"y", .wholePath, [.literal 'y']⟩], false⟩ := by
    cbv
  have hroot : FileTree.ofNested.isDir ⟨[47]⟩ = true := by decide
  obtain ⟨⟨lax, full, part, hlax', hfull, hpart, hdefects, _⟩, _⟩ :=
    walk_monotone (show ["y"] ⊆ ["x", "y"] by decide) hstrict hroot
  cases hlax'.symm.trans hlax
  cases hfull.symm.trans (walk_of_isDir _ hroot)
  cases hpart.symm.trans (walk_of_isDir _ hroot)
  exact ⟨by decide, hroot, _, _, _, _, hlax, hstrict, hfull, hpart, hdefects, by cbv, by cbv⟩

/-- A directory with a file to check, next to an ignore file with an unclosed brace. -/
def FileTree.ofFaultyIgnore : FileTree where
  root := .dir .full
    [([46, 103, 105, 116, 105, 103, 110, 111, 114, 101], .file .full [97, 123, 10]),
      ([114], .dir .full [([97, 46, 98], .file .full [102, 110])])]
  cwd := []

/-- Ignore files can add to a report: what is wrong with those above the root is told only if
    they are in force. -/
theorem Walker.walk_tells_of_ignore_files_above :
    let w (gitignore : Bool) : Walker := ⟨⟨["b"], ["fn"], [], "///"⟩, [], gitignore⟩
    FileTree.ofFaultyIgnore.WellFormed ∧ FileTree.ofFaultyIgnore.isDir ⟨[114]⟩ = true ∧
    ∃ off on, (w false).walk .ofFaultyIgnore ⟨[114]⟩ = .ok off ∧
      (w true).walk .ofFaultyIgnore ⟨[114]⟩ = .ok on ∧ off.warnings = [] ∧
      ¬ on.warnings.Sublist off.warnings := by
  intro w
  have hroot : FileTree.ofFaultyIgnore.isDir ⟨[114]⟩ = true := by decide
  have hfaulty : (w true).problemsAbove .ofFaultyIgnore ⟨[47, 114]⟩ ≠ [] := by
    rw [← List.isEmpty_eq_false_iff]
    decide +kernel
  have hoff : ((w false).report .ofFaultyIgnore ⟨[47, 114]⟩).warnings = [] := by
    cbv
  obtain ⟨_, _, warnings, _, hwarnings⟩ := (w false).report_of_gitignore .ofFaultyIgnore ⟨[47, 114]⟩
  refine ⟨by decide, hroot, _, _, walk_of_isDir _ hroot, walk_of_isDir _ hroot, hoff, ?_⟩
  intro hsub
  have hnil : ((w true).report .ofFaultyIgnore ⟨[47, 114]⟩).warnings = [] :=
    List.sublist_nil.mp (hoff ▸ hsub)
  rw [hwarnings, if_neg hfaulty] at hnil
  cases hnil

end DocLint
