-- SUMMARY: Skipped means not checked: below what a walk lists as skipped it reports nothing, unless that is a linked root.
import DocLint.Proofs.Coverage
import Mathlib

/-! # Skipped entries

A walk goes on below an entry only if the entry is an open directory that is not excluded, and
such an entry leaves nothing in the report. So whatever is in the report, skipped or scanned, is
where the walk has ended, and no two of these are one below the other. The root is the exception.
If its path is a link, it is listed as skipped, and the walk goes through it all the same.
-/

namespace DocLint

/-! ## Paths apart -/

namespace Path

/-- The path is `top` or stands below it. -/
def IsWithin (p top : Path) : Prop :=
  top.components <+: p.components

instance (p top : Path) : Decidable (p.IsWithin top) :=
  inferInstanceAs (Decidable (top.components <+: p.components))

/-- Neither path is the other one or stands below it. -/
def Apart (p q : Path) : Prop :=
  ¬ p.IsWithin q ∧ ¬ q.IsWithin p

theorem Apart.symm {p q : Path} (h : p.Apart q) : q.Apart p :=
  ⟨h.2, h.1⟩

/-- Below one root, being within is starting with the same names. -/
theorem isWithin_under {root : Path} (h : root.isAbsolute = true) {a b : List Name}
    (ha : ∀ name ∈ a, IsName name) (hb : ∀ name ∈ b, IsName name) :
    (root.under b).IsWithin (root.under a) ↔ a <+: b := by
  have hinjective : Function.Injective Component.name := by
    intro x y heq
    exact Component.name.inj heq
  unfold IsWithin
  rw [components_under h ha, components_under h hb, List.prefix_append_right_inj,
    List.prefix_map_iff_of_injective hinjective]

end Path

/-! ## Where a walk ends -/

/-- There is nothing to tell of a directory that is entered. -/
theorem Finding.ofNode?_of_isOpen {path : Path} {node : Node} (h : node.isOpen path = true) :
    Finding.ofNode? path node = none := by
  cases node with
  | dir access entries =>
    rw [Node.isOpen, Bool.and_eq_true, Bool.not_eq_true'] at h
    simp [Finding.ofNode?, FileTree.openAt, h.1, h.2]
  | file access content => cases h
  | link target => cases h
  | fifo => cases h
  | device d => cases h

/-- Neither finding is listed at or below the path of the other. -/
def Finding.Apart (f g : Finding) : Prop :=
  ∀ p ∈ f.listed?, ∀ q ∈ g.listed?, p.Apart q

instance : Std.Symm Finding.Apart where
  symm _ _ h p hp q hq := (h q hq p hp).symm

namespace Walker

section

variable {w : Walker} {tree : FileTree} {root : Path} {node : Node}

/-- An entry that a walk has gone on from leaves nothing to tell. -/
theorem Meets.finding?_above {a b : Entry} (ha : w.Meets tree root [] node a.trail a.node)
    (hb : w.Meets tree root [] node b.trail b.node) (h : a.trail <+: b.trail)
    (hne : a.trail ≠ b.trail) : w.finding? root a = none := by
  have hlt : a.trail.length < b.trail.length := by
    rcases Nat.lt_or_eq_of_le h.length_le with hlt | heq
    · exact hlt
    · exact absurd (h.eq_of_length heq) hne
  have htake : b.trail.take a.trail.length = a.trail := (List.prefix_iff_eq_take.mp h).symm
  obtain ⟨dir, hdir, hopen, hpass⟩ := hb.through _ hlt
  rw [htake] at hdir hopen hpass
  obtain rfl : a.node = dir := Option.some.inj (ha.at_eq.symm.trans hdir)
  have hexcludes : w.excludes a.trail = false :=
    (hpass (List.length_pos_iff.mpr ha.ne_nil)).2
  rw [finding?, hexcludes]
  exact Finding.ofNode?_of_isOpen hopen

variable (htree : tree.WellFormed) (hnode : tree.seenAt root = .ok node)
  (hdir : node.isDir = true)

include htree hnode hdir

theorem isName_of_mem_entries {e : Entry}
    (he : e ∈ w.entries tree (root.absolute tree.cwdPath)) : ∀ name ∈ e.trail, Path.IsName name :=
  Node.isName_of_at? (FileTree.seenAt_isWellFormed htree hnode)
    ((mem_entries_iff htree hnode hdir).mp he).at_eq

/-- What there is to tell of entries is pairwise apart. -/
theorem entries_findings_apart :
    ((w.entries tree (root.absolute tree.cwdPath)).filterMap
      (w.finding? (root.absolute tree.cwdPath))).Pairwise Finding.Apart := by
  have habs := Path.isAbsolute_absolute tree.cwdPath_isAbsolute root
  rw [List.pairwise_filterMap]
  refine (entries_increasing htree hnode hdir).imp_of_mem ?_
  intro a b ha hb hlt f hf g hg p hp q hq
  have hne : a.trail ≠ b.trail := by
    intro heq
    rw [heq, Std.ReflOrd.compare_self] at hlt
    cases hlt
  have hmeetsA := (mem_entries_iff htree hnode hdir).mp ha
  have hmeetsB := (mem_entries_iff htree hnode hdir).mp hb
  have hnamesA := isName_of_mem_entries htree hnode hdir ha
  have hnamesB := isName_of_mem_entries htree hnode hdir hb
  rw [Finding.listed?_finding? hf p hp, Finding.listed?_finding? hg q hq]
  constructor
  · rw [Path.isWithin_under habs hnamesB hnamesA]
    intro hprefix
    rw [hmeetsB.finding?_above hmeetsA hprefix hne.symm] at hg
    cases hg
  · rw [Path.isWithin_under habs hnamesA hnamesB]
    intro hprefix
    rw [hmeetsA.finding?_above hmeetsB hprefix hne] at hf
    cases hf

theorem isWithin_of_mem_entries {e : Entry} {f : Finding} {p : Path}
    (he : e ∈ w.entries tree (root.absolute tree.cwdPath))
    (hf : w.finding? (root.absolute tree.cwdPath) e = some f) (hp : p ∈ f.listed?) :
    p.IsWithin (root.absolute tree.cwdPath) := by
  have habs := Path.isAbsolute_absolute tree.cwdPath_isAbsolute root
  rw [Finding.listed?_finding? hf p hp]
  unfold Path.IsWithin
  rw [Path.components_under habs (isName_of_mem_entries htree hnode hdir he)]
  exact List.prefix_append _ _

end

end Walker

/-! ## Scanned files -/

namespace Finding

variable {rules : Rules}

/-- The path of a file that was read and scanned. -/
def scanned? (rules : Rules) (f : Finding) : Option Path :=
  if f.isChecked rules then f.listed? else none

theorem scanned?_eq_some {f : Finding} {p : Path} (h : f.scanned? rules = some p) :
    f.isChecked rules = true ∧ f.listed? = some p := by
  unfold scanned? at h
  split at h
  · rename_i hchecked
    exact ⟨hchecked, h⟩
  · cases h

theorem isSome_scanned? (f : Finding) : (f.scanned? rules).isSome = f.isChecked rules := by
  unfold scanned?
  cases hchecked : f.isChecked rules with
  | false => rfl
  | true =>
    cases f with
    | file path content => rfl
    | _ => cases hchecked

/-- Only a file that was scanned has defects. -/
theorem scanned?_of_mem_defects {f : Finding} {d : Defect} (h : d ∈ f.defects rules) :
    f.scanned? rules = some d.file := by
  have hchecked : f.isChecked rules = true := by
    unfold defects at h
    unfold isChecked
    split at h
    · rfl
    · cases h
  rw [scanned?, hchecked]
  exact listed?_of_mem_defects h

/-- A file that was scanned is not skipped. -/
theorem skipped?_of_isChecked {f : Finding} (h : f.isChecked rules = true) :
    (f.trace rules).skipped? = none := by
  rw [← isChecked_trace] at h
  cases htrace : f.trace rules with
  | checked defects => rfl
  | skipped s =>
    rw [htrace] at h
    cases h
  | warning text => rfl

end Finding

/-- Nothing that was scanned is at or below a skipped path, and no skipped path is at or below
    another one. -/
structure KeepsApart (skipped : List Skipped) (scanned : List Path) : Prop where
  scanned : ∀ s ∈ skipped, ∀ p ∈ scanned, ¬ p.IsWithin s.path
  skipped : skipped.Pairwise fun s t => s.path.Apart t.path

/-- The three blocks together are what was skipped. -/
theorem Report.mem_skipped_iff {rules : Rules} {findings : List Finding} {s : Skipped} :
    s ∈ (Report.ofFindings rules findings).skipped ↔
      ∃ f ∈ findings, (f.trace rules).skipped? = some s := by
  rw [(tallies_ofFindings rules findings).skipped.mem_iff, List.mem_filterMap]
  constructor
  · rintro ⟨trace, htrace, hs⟩
    obtain ⟨f, hf, rfl⟩ := List.mem_map.mp htrace
    exact ⟨f, hf, hs⟩
  · rintro ⟨f, hf, hs⟩
    exact ⟨_, List.mem_map_of_mem hf, hs⟩

/-- Findings that are apart give a report that keeps what it skips apart from what was scanned. -/
theorem Report.keepsApart (rules : Rules) {findings : List Finding}
    (h : findings.Pairwise Finding.Apart) :
    KeepsApart (Report.ofFindings rules findings).skipped
      (findings.filterMap (Finding.scanned? rules)) where
  scanned := by
    intro s hs p hp
    obtain ⟨f, hf, hskipped⟩ := mem_skipped_iff.mp hs
    obtain ⟨g, hg, hscanned⟩ := List.mem_filterMap.mp hp
    obtain ⟨hchecked, hlisted⟩ := Finding.scanned?_eq_some hscanned
    have hne : f ≠ g := by
      rintro rfl
      rw [Finding.skipped?_of_isChecked hchecked] at hskipped
      cases hskipped
    have hapart := h.forall hf hg hne
    exact (hapart s.path (Finding.listed?_of_skipped?_trace rules f s hskipped) p hlisted).2
  skipped := by
    have htraces : ((findings.map (Finding.trace rules)).filterMap Trace.skipped?).Pairwise
        fun s t => s.path.Apart t.path := by
      rw [List.filterMap_map, List.pairwise_filterMap]
      refine h.imp ?_
      intro f g hapart s hs t ht
      exact hapart s.path (Finding.listed?_of_skipped?_trace rules f s hs) t.path
        (Finding.listed?_of_skipped?_trace rules g t ht)
    exact htraces.perm (tallies_ofFindings rules findings).skipped.symm Path.Apart.symm

/-! ## The report of a walk -/

namespace Walker

/-- The paths of the files that a walk from a root has read and scanned. -/
def scanned (w : Walker) (tree : FileTree) (root : Path) : List Path :=
  (w.findings tree root).filterMap (Finding.scanned? w.rules)

/-- The count is that of the files scanned. -/
theorem filesChecked_eq_scanned (w : Walker) (tree : FileTree) (root : Path) :
    (w.report tree root).filesChecked = .ofNat (w.scanned tree root).length := by
  unfold report scanned
  rw [Report.ofFindings, List.length_filterMap_eq_countP]
  simp only [Finding.isSome_scanned?]

theorem file_mem_scanned {w : Walker} {tree : FileTree} {root : Path} {d : Defect}
    (h : d ∈ (w.report tree root).defects) : d.file ∈ w.scanned tree root := by
  obtain ⟨f, hf, hd⟩ := List.mem_flatMap.mp h
  exact List.mem_filterMap.mpr ⟨f, hf, Finding.scanned?_of_mem_defects hd⟩

section

variable {w : Walker} {tree : FileTree} {root : Path} {node : Node} (htree : tree.WellFormed)
  (hnode : tree.seenAt root = .ok node) (hdir : node.isDir = true)

include htree hnode hdir

theorem scanned_eq_below :
    w.scanned tree (root.absolute tree.cwdPath) =
      ((w.entries tree (root.absolute tree.cwdPath)).filterMap
        (w.finding? (root.absolute tree.cwdPath))).filterMap (Finding.scanned? w.rules) := by
  have hroot : (w.rootFindings tree (root.absolute tree.cwdPath)).filterMap
      (Finding.scanned? w.rules) = [] := by
    rw [filterMap_rootFindings htree hnode hdir _ (fun _ => rfl) (fun _ _ => rfl)]
    split <;> rfl
  rw [scanned, findings, List.filterMap_append, hroot, List.nil_append]

/-- Skipped entries are those below the root, after the root itself if it is a link. -/
theorem skipped_eq_below :
    (w.reportOn tree root).skipped =
      (if tree.isLink (root.absolute tree.cwdPath) then
        [⟨root.absolute tree.cwdPath, .notRegular⟩] else []) ++
      (Report.ofFindings w.rules ((w.entries tree (root.absolute tree.cwdPath)).filterMap
        (w.finding? (root.absolute tree.cwdPath)))).skipped := by
  have hspecial := filterMap_rootFindings (w := w) htree hnode hdir Finding.special?
    (fun _ => rfl) (fun _ _ => rfl)
  have hexcluded := filterMap_rootFindings (w := w) htree hnode hdir Finding.excluded?
    (fun _ => rfl) (fun _ _ => rfl)
  have hunchecked := filterMap_rootFindings (w := w) htree hnode hdir (Finding.unchecked? w.rules)
    (fun _ => rfl) (fun _ _ => rfl)
  simp only [reportOn, report, findings, Report.ofFindings, List.filterMap_append, hspecial,
    hexcluded, hunchecked]
  split <;> simp [Finding.special?, Finding.excluded?, Finding.unchecked?]

end

/-- Below what it lists as skipped a walk has scanned nothing, and listed nothing else, unless the
    root is a link. Such a root is listed first, and everything else in the report is below it. A
    root that is given with a slash at the end is never listed. -/
theorem walk_skipped_apart (w : Walker) {tree : FileTree} (htree : tree.WellFormed) {root : Path}
    (hroot : tree.isDir root = true) :
    ∃ (top : Path) (report : Report),
      tree.resolveRoot root = .ok top ∧ w.walk tree root = .ok report ∧
      report.filesChecked = .ofNat (w.scanned tree top).length ∧
      (∀ d ∈ report.defects, d.file ∈ w.scanned tree top) ∧
      (tree.isLink top = false → KeepsApart report.skipped (w.scanned tree top)) ∧
      (tree.isLink top = true → ∃ below,
        report.skipped = ⟨top, .notRegular⟩ :: below ∧
        KeepsApart below (w.scanned tree top) ∧
        (∀ s ∈ below, s.path.IsWithin top) ∧ ∀ p ∈ w.scanned tree top, p.IsWithin top) ∧
      (root.endsInSlash = true → tree.isLink top = false) := by
  obtain ⟨node, hnode, hdir⟩ := FileTree.isDir_iff_seenAt.mp hroot
  have hskipped := skipped_eq_below (w := w) htree hnode hdir
  have hscanned := scanned_eq_below (w := w) htree hnode hdir
  have hapart := Report.keepsApart w.rules (entries_findings_apart (w := w) htree hnode hdir)
  rw [← hscanned] at hapart
  refine ⟨root.absolute tree.cwdPath, w.reportOn tree root, FileTree.resolveRoot_of_isDir hroot,
    w.walk_of_isDir hroot, w.filesChecked_eq_scanned tree _, fun d hd => file_mem_scanned hd,
    ?_, ?_, ?_⟩
  · intro hlink
    rw [hskipped, hlink]
    exact hapart
  · intro hlink
    rw [hlink] at hskipped
    refine ⟨_, hskipped, hapart, ?_, ?_⟩
    · intro s hs
      obtain ⟨f, hf, htrace⟩ := Report.mem_skipped_iff.mp hs
      obtain ⟨e, he, hfinding⟩ := List.mem_filterMap.mp hf
      exact isWithin_of_mem_entries htree hnode hdir he hfinding
        (Finding.listed?_of_skipped?_trace w.rules f s htrace)
    · intro p hp
      rw [hscanned] at hp
      obtain ⟨f, hf, hp⟩ := List.mem_filterMap.mp hp
      obtain ⟨e, he, hfinding⟩ := List.mem_filterMap.mp hf
      exact isWithin_of_mem_entries htree hnode hdir he hfinding (Finding.scanned?_eq_some hp).2
  · intro hslash
    exact FileTree.isLink_of_endsInSlash
      (Path.endsInSlash_absolute tree.cwdPath_isAbsolute hslash)

end Walker

/-- A directory `d` with a file to check and a pipe in it, and a link `l` to it. -/
def FileTree.ofLinkedRoot : FileTree where
  root := .dir .full
    [([100], .dir .full [([97, 46, 98], .file .full [102, 110]), ([112], .fifo)]),
      ([108], .link ⟨[100]⟩)]
  cwd := []

/-- The root is the link, with a slash after it. -/
theorem Walker.walk_skipped_apart_ofLinkedRoot :
    let w : Walker := ⟨⟨["b"], ["fn"], [], "///"⟩, [], true⟩
    FileTree.ofLinkedRoot.WellFormed ∧ FileTree.ofLinkedRoot.isDir ⟨[108, 47]⟩ = true ∧
    w.scanned .ofLinkedRoot ⟨[47, 108, 47]⟩ = [⟨[47, 108, 47, 97, 46, 98]⟩] ∧
    ∃ report, w.walk .ofLinkedRoot ⟨[108, 47]⟩ = .ok report ∧
      report.skipped = [⟨⟨[47, 108, 47, 112]⟩, .notRegular⟩] ∧
      KeepsApart report.skipped (w.scanned .ofLinkedRoot ⟨[47, 108, 47]⟩) := by
  intro w
  have htree : FileTree.ofLinkedRoot.WellFormed := by decide
  have hroot : FileTree.ofLinkedRoot.isDir ⟨[108, 47]⟩ = true := by decide
  obtain ⟨top, report, htop, hreport, _, _, hplain, _, hslash⟩ := w.walk_skipped_apart htree hroot
  obtain rfl : ⟨[47, 108, 47]⟩ = top := Except.ok.inj htop
  obtain rfl := Except.ok.inj hreport
  exact ⟨htree, hroot, by cbv, _, rfl, by cbv, hplain (hslash rfl)⟩

/-- The root is the link itself. It is listed as skipped, and both the defect and the pipe that are
    reported are below it. -/
theorem Walker.walk_skips_what_it_checks :
    let w : Walker := ⟨⟨["b"], ["fn"], [], "///"⟩, [], false⟩
    FileTree.ofLinkedRoot.WellFormed ∧ FileTree.ofLinkedRoot.isDir ⟨[108]⟩ = true ∧
    ∃ report, w.walk .ofLinkedRoot ⟨[108]⟩ = .ok report ∧
      ∃ s ∈ report.skipped, (∃ d ∈ report.defects, d.file.IsWithin s.path) ∧
        ∃ t ∈ report.skipped, s ≠ t ∧ t.path.IsWithin s.path := by
  intro w
  have hroot : FileTree.ofLinkedRoot.isDir ⟨[108]⟩ = true := by decide
  have hdefects : (w.reportOn .ofLinkedRoot ⟨[108]⟩).defects =
      [⟨⟨[47, 108, 47, 97, 46, 98]⟩, 1⟩] := by cbv
  have hskipped : (w.reportOn .ofLinkedRoot ⟨[108]⟩).skipped =
      [⟨⟨[47, 108]⟩, .notRegular⟩, ⟨⟨[47, 108, 47, 112]⟩, .notRegular⟩] := by cbv
  refine ⟨by decide, hroot, _, w.walk_of_isDir hroot, ?_⟩
  rw [hdefects, hskipped]
  exact ⟨_, List.mem_cons_self, ⟨_, List.mem_cons_self, by decide⟩, _,
    List.mem_cons_of_mem _ List.mem_cons_self, by decide, by decide⟩

end DocLint
