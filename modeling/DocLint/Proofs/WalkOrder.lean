-- SUMMARY: The order of a walk's report: defects by file and line, and skipped entries in three blocks, each by path.
import DocLint.Proofs.Entries
import DocLint.Proofs.Scan
import DocLint.Proofs.Telling
import Mathlib

/-! # The order of a report

A walk meets entries in the order of the names that lead to them. Since paths below a root
are ordered as these names are, so is all that a report lists by path.
-/

namespace DocLint

/-! ## Orders that are strict -/

theorem Path.compare_self (p : Path) : p.compare p = .eq :=
  Std.ReflOrd.compare_self

/-- A list of paths that increases has none of them twice. -/
theorem Path.nodup_of_increasing {paths : List Path}
    (h : paths.Pairwise fun p q => p.compare q = .lt) : paths.Nodup := by
  refine h.imp ?_
  rintro p q hlt rfl
  rw [Path.compare_self] at hlt
  exact absurd hlt nofun

theorem Defect.compare_self (d : Defect) : d.compare d = .eq := by
  rw [Defect.compare, Path.compare_self]
  exact Std.ReflOrd.compare_self

/-- Nothing that is in order is there twice. -/
theorem Defect.nodup_of_increasing {defects : List Defect}
    (h : defects.Pairwise fun a b => a.compare b = .lt) : defects.Nodup := by
  refine h.imp ?_
  rintro a b hlt rfl
  rw [Defect.compare_self] at hlt
  exact absurd hlt nofun

/-! ## Findings in order -/

namespace Finding

/-- The path under which a finding can be listed in a report. -/
def listed? : Finding → Option Path
  | .file path _ => some path
  | .special path => some path
  | .excluded path => some path
  | .blocked _ _ => none
  | .faulty _ => none

theorem listed?_ofNode? {path : Path} {node : Node} {f : Finding}
    (h : Finding.ofNode? path node = some f) : ∀ p ∈ f.listed?, p = path := by
  intro p hp
  cases node with
  | dir access entries =>
    rw [ofNode?] at h
    split at h
    · exact absurd h nofun
    · obtain rfl := Option.some.inj h
      exact absurd hp nofun
  | file access content =>
    obtain rfl := Option.some.inj h
    exact (Option.some.inj hp).symm
  | link target =>
    obtain rfl := Option.some.inj h
    exact (Option.some.inj hp).symm
  | fifo =>
    obtain rfl := Option.some.inj h
    exact (Option.some.inj hp).symm
  | device d =>
    obtain rfl := Option.some.inj h
    exact (Option.some.inj hp).symm

/-- An entry is listed under its own path. -/
theorem listed?_finding? {w : Walker} {root : Path} {e : Entry} {f : Finding}
    (h : w.finding? root e = some f) : ∀ p ∈ f.listed?, p = root.under e.trail := by
  rw [Walker.finding?] at h
  split at h
  · obtain rfl := Option.some.inj h
    exact fun p hp => (Option.some.inj hp).symm
  · exact listed?_ofNode? h

end Finding

namespace Walker

section

variable {w : Walker} {tree : FileTree} {root : Path} (htree : tree.WellFormed) {node : Node}
  (hnode : tree.seenAt root = .ok node) (hdir : node.isDir = true)

include htree hnode hdir

/-- What there is to tell of a root does not depend on how it is written. -/
theorem rootFindings_absolute :
    w.rootFindings tree (root.absolute tree.cwdPath) =
      w.beforeRoot tree (root.absolute tree.cwdPath) ++
        (Finding.ofNode? (root.absolute tree.cwdPath) node).toList := by
  obtain ⟨here, hhere, rfl⟩ := FileTree.seenAt_eq_ok hnode
  rw [FileTree.isDir_sight] at hdir
  rw [rootFindings, FileTree.node_absolute htree hhere hdir]
  congr 1
  obtain ⟨access, entries, rfl⟩ := Node.eq_dir_of_isDir hdir
  cases hlong : FileTree.isTooLong (root.absolute tree.cwdPath) <;>
    cases hreaches : tree.reaches root <;>
    simp [FileTree.sight, hreaches, Node.shut, Node.seen, Finding.ofNode?, FileTree.openAt, hlong,
      Access.nothing]

/-- Of a root itself there is only a link to select, if neither faulty ignore files nor directories
    that cannot be listed are selected. -/
theorem filterMap_rootFindings {β : Type} (select : Finding → Option β)
    (hfaulty : ∀ problems, select (.faulty problems) = none)
    (hblocked : ∀ path fault, select (.blocked path fault) = none) :
    (w.rootFindings tree (root.absolute tree.cwdPath)).filterMap select =
      if tree.isLink (root.absolute tree.cwdPath) then
        (select (.special (root.absolute tree.cwdPath))).toList
      else [] := by
  have hhere :
      (Finding.ofNode? (root.absolute tree.cwdPath) node).toList.filterMap select = [] := by
    obtain ⟨access, entries, rfl⟩ := Node.eq_dir_of_isDir hdir
    rw [Finding.ofNode?]
    split
    · rfl
    · simp [hblocked]
  rw [rootFindings_absolute htree hnode hdir, List.filterMap_append, hhere, List.append_nil,
    beforeRoot, List.filterMap_append]
  have hproblems : (if w.problemsAbove tree (root.absolute tree.cwdPath) = [] then []
      else [Finding.faulty (w.problemsAbove tree (root.absolute tree.cwdPath))]).filterMap select =
        [] := by
    split
    · rfl
    · simp [hfaulty]
  rw [hproblems, List.nil_append]
  split
  · cases hspecial : select (.special (root.absolute tree.cwdPath)) <;> simp [hspecial]
  · rfl

/-- Of a root itself only a link to it is listed. -/
theorem listed_rootFindings :
    (w.rootFindings tree (root.absolute tree.cwdPath)).filterMap Finding.listed? =
      if tree.isLink (root.absolute tree.cwdPath) then [root.absolute tree.cwdPath] else [] :=
  filterMap_rootFindings htree hnode hdir Finding.listed? (fun _ => rfl) (fun _ _ => rfl)

/-- What a walk lists is listed in the order of the paths. -/
theorem listed_increasing :
    ((w.findings tree (root.absolute tree.cwdPath)).filterMap Finding.listed?).Pairwise
      fun p q => p.compare q = .lt := by
  have habs := Path.isAbsolute_absolute tree.cwdPath_isAbsolute root
  have hwell := FileTree.seenAt_isWellFormed htree hnode
  have hnames (e : Entry) (he : e ∈ w.entries tree (root.absolute tree.cwdPath)) :
      e.trail ≠ [] ∧ ∀ name ∈ e.trail, Path.IsName name := by
    have hmeets := (mem_entries_iff htree hnode hdir).mp he
    exact ⟨hmeets.ne_nil, Node.isName_of_at? hwell hmeets.at_eq⟩
  rw [findings, List.filterMap_append, List.pairwise_append]
  refine ⟨?_, ?_, ?_⟩
  · rw [listed_rootFindings htree hnode hdir]
    split
    · exact List.pairwise_singleton _ _
    · exact .nil
  · rw [List.pairwise_filterMap, List.pairwise_filterMap]
    refine (entries_increasing htree hnode hdir).imp_of_mem ?_
    intro a b ha hb hlt f hf g hg p hp q hq
    rw [Finding.listed?_finding? hf p hp, Finding.listed?_finding? hg q hq,
      Path.compare_under habs (hnames a ha).2 (hnames b hb).2]
    exact hlt
  · intro p hp q hq
    rw [listed_rootFindings htree hnode hdir] at hp
    split at hp
    · obtain rfl := List.mem_singleton.mp hp
      obtain ⟨f, hf, hq⟩ := List.mem_filterMap.mp hq
      obtain ⟨e, he, hf⟩ := List.mem_filterMap.mp hf
      rw [Finding.listed?_finding? hf q hq]
      -- the root is what no names lead to, and a list comes after the empty one
      have hroot := Path.compare_under habs (a := []) (fun _ h => absurd h List.not_mem_nil)
        (hnames e he).2
      exact hroot.trans (compare_append_lt (hnames e he).1 [])
    · exact absurd hp List.not_mem_nil

end

end Walker

/-! ## Reports in order -/

theorem Rules.eq_checkSource_of_checkText {rules : Rules} {path : Path}
    {text : Except FileTree.Fault (List Char)} {defects : List Defect}
    (h : rules.checkText path text = .checked defects) :
    ∃ content, defects = rules.checkSource path content := by
  unfold Rules.checkText at h
  split at h
  · split at h
    · rename_i content
      exact ⟨content, (FileOutcome.checked.inj h).symm⟩
    · exact absurd h nofun
  · exact absurd h nofun

namespace Finding

/-- Only a file that was scanned has defects. -/
theorem defects_cases (rules : Rules) (f : Finding) :
    f.defects rules = [] ∨
      ∃ path content text, f = .file path content ∧
        f.defects rules = rules.checkSource path text := by
  cases f with
  | file path content =>
    cases houtcome : rules.checkText path (content.bind FileTree.decodeContent) with
    | checked found =>
      obtain ⟨text, rfl⟩ := Rules.eq_checkSource_of_checkText houtcome
      exact .inr ⟨path, content, text, rfl, by simp [defects, outcome?, houtcome]⟩
    | notCheckable => exact .inl (by simp [defects, outcome?, houtcome])
    | unreadable fault => exact .inl (by simp [defects, outcome?, houtcome])
  | special path => exact .inl rfl
  | excluded path => exact .inl rfl
  | blocked path fault => exact .inl rfl
  | faulty problems => exact .inl rfl

theorem listed?_of_mem_defects {rules : Rules} {f : Finding} {d : Defect}
    (h : d ∈ f.defects rules) : f.listed? = some d.file := by
  rcases f.defects_cases rules with hnil | ⟨path, content, text, rfl, hdefects⟩
  · exact absurd h (by simp [hnil])
  · rw [hdefects] at h
    rw [Rules.file_of_mem_checkSource h]
    rfl

/-- The defects of one file are in the order of its lines. -/
theorem defects_increasing (rules : Rules) (f : Finding) :
    (f.defects rules).Pairwise fun a b => a.compare b = .lt := by
  rcases f.defects_cases rules with hnil | ⟨path, content, text, rfl, hdefects⟩
  · rw [hnil]
    exact .nil
  · rw [hdefects]
    refine (rules.checkSource_increasing path text).imp_of_mem ?_
    intro a b ha hb hlt
    rw [Defect.compare, Rules.file_of_mem_checkSource ha, Rules.file_of_mem_checkSource hb,
      Path.compare_self]
    exact Nat.compare_eq_lt.mpr hlt

/-- What is selected by path comes in the order of the paths if the findings do. -/
theorem selected_increasing {select : Finding → Option Skipped}
    (hselect : ∀ f s, select f = some s → f.listed? = some s.path) {findings : List Finding}
    (h : (findings.filterMap listed?).Pairwise fun p q => p.compare q = .lt) :
    ((findings.filterMap select).map Skipped.path).Pairwise fun p q => p.compare q = .lt := by
  rw [List.pairwise_filterMap] at h
  rw [List.pairwise_map, List.pairwise_filterMap]
  refine h.imp ?_
  intro f g hlt s hs t ht
  exact hlt _ (hselect f s hs) _ (hselect g t ht)

/-- Skipped entries of one reason are a block. -/
theorem exists_block {select : Finding → Option Skipped} {reason : SkipReason}
    (hselect : ∀ f s, select f = some s → s.reason = reason ∧ f.listed? = some s.path)
    {findings : List Finding}
    (h : (findings.filterMap listed?).Pairwise fun p q => p.compare q = .lt) :
    ∃ paths : List Path, findings.filterMap select = paths.map (⟨·, reason⟩) ∧
      paths.Pairwise fun p q => p.compare q = .lt := by
  refine ⟨(findings.filterMap select).map Skipped.path, ?_, ?_⟩
  · rw [List.map_map]
    refine (List.map_id' _).symm.trans (List.map_congr_left fun s hs => ?_)
    obtain ⟨f, _, hf⟩ := List.mem_filterMap.mp hs
    rw [Function.comp_apply, ← (hselect f s hf).1]
  · exact selected_increasing (fun f s hf => (hselect f s hf).2) h

theorem special?_listed (f : Finding) (s : Skipped) (h : f.special? = some s) :
    s.reason = .notRegular ∧ f.listed? = some s.path := by
  cases f with
  | special path =>
    obtain rfl := Option.some.inj h
    exact ⟨rfl, rfl⟩
  | _ => exact absurd h nofun

theorem excluded?_listed (f : Finding) (s : Skipped) (h : f.excluded? = some s) :
    s.reason = .excluded ∧ f.listed? = some s.path := by
  cases f with
  | excluded path =>
    obtain rfl := Option.some.inj h
    exact ⟨rfl, rfl⟩
  | _ => exact absurd h nofun

theorem unchecked?_listed (rules : Rules) (f : Finding) (s : Skipped)
    (h : f.unchecked? rules = some s) :
    s.reason = .uncheckedExtension ∧ f.listed? = some s.path := by
  cases f with
  | file path content =>
    rw [unchecked?] at h
    split at h
    · exact absurd h nofun
    · obtain rfl := Option.some.inj h
      exact ⟨rfl, rfl⟩
  | _ => exact absurd h nofun

end Finding

/-- The defects of findings, file after file. -/
theorem Report.defects_ofFindings_increasing (rules : Rules) {findings : List Finding}
    (h : (findings.filterMap Finding.listed?).Pairwise fun p q => p.compare q = .lt) :
    (Report.ofFindings rules findings).defects.Pairwise fun a b => a.compare b = .lt := by
  rw [Report.ofFindings, List.pairwise_flatMap]
  refine ⟨fun f _ => f.defects_increasing rules, ?_⟩
  refine (List.pairwise_filterMap.mp h).imp ?_
  intro f g hlt a ha b hb
  have hfile := hlt _ (Finding.listed?_of_mem_defects ha) _ (Finding.listed?_of_mem_defects hb)
  rw [Defect.compare, hfile]
  rfl

/-- A walk reports defects by file and line, none of them twice, and skipped entries in three
    blocks, each by path. -/
theorem Walker.walk_increasing (w : Walker) {tree : FileTree} (htree : tree.WellFormed)
    {root : Path} (hroot : tree.isDir root = true) :
    ∃ (report : Report) (special excluded unchecked : List Path),
      w.walk tree root = .ok report ∧
      report.defects.Pairwise (fun a b => a.compare b = .lt) ∧
      report.defects.Nodup ∧
      report.skipped = special.map (⟨·, .notRegular⟩) ++ excluded.map (⟨·, .excluded⟩) ++
        unchecked.map (⟨·, .uncheckedExtension⟩) ∧
      special.Pairwise (fun p q => p.compare q = .lt) ∧
      excluded.Pairwise (fun p q => p.compare q = .lt) ∧
      unchecked.Pairwise (fun p q => p.compare q = .lt) := by
  obtain ⟨node, hnode, hdir⟩ := FileTree.isDir_iff_seenAt.mp hroot
  have hlisted := w.listed_increasing htree hnode hdir
  have hdefects := Report.defects_ofFindings_increasing w.rules hlisted
  obtain ⟨special, hspecial, hspecialLt⟩ := Finding.exists_block Finding.special?_listed hlisted
  obtain ⟨excluded, hexcluded, hexcludedLt⟩ :=
    Finding.exists_block Finding.excluded?_listed hlisted
  obtain ⟨unchecked, hunchecked, huncheckedLt⟩ :=
    Finding.exists_block (Finding.unchecked?_listed w.rules) hlisted
  refine ⟨_, special, excluded, unchecked, w.walk_of_isDir hroot, hdefects,
    Defect.nodup_of_increasing hdefects, ?_, hspecialLt, hexcludedLt, huncheckedLt⟩
  rw [← hspecial, ← hexcluded, ← hunchecked]
  rfl

/-- Every kind of node, some that cannot be opened, and an ignore file that drops `i.b`. The
    directory `a` comes before the file `a.b`, though as texts the paths below it come after that
    file's. -/
def Node.entriesOfEveryKind : List (Name × Node) :=
  [([97, 46, 98], .file .full [102, 110]),
    ([97], .dir .full [([102, 46, 98], .file .full [102, 110]), ([103], .file .nothing [])]),
    ([99], .dir .nothing [([100], .fifo)]),
    ([100], .device .null),
    (IgnoreLayer.sharedName, .file .full [47, 105, 46, 98, 10]),
    ([105, 46, 98], .file .full [102, 110]),
    ([108], .link ⟨[47, 114]⟩),
    ([112], .fifo),
    ([115], .dir ⟨true, true, false⟩ [([102, 46, 98], .file .full [102, 110])]),
    ([120], .dir .full [([102, 46, 98], .file .full [102, 110])])]

def FileTree.ofEveryKind : FileTree where
  root := .dir .full [([114], .dir .full Node.entriesOfEveryKind)]
  cwd := [[114]]

/-- Checks the extension `b`, excludes `x` and heeds ignore files. -/
def Walker.ofEveryKind : Walker where
  rules := ⟨["b"], ["fn"], [], "///"⟩
  exclude := [⟨"x", .wholePath, [.literal 'x']⟩]
  gitignore := true

/-- What that walker finds there: nothing of `i.b`, and nothing below `x`. -/
def Finding.listOfEveryKind : List Finding :=
  [.file ⟨[47, 114, 47] ++ IgnoreLayer.sharedName⟩ (.ok [47, 105, 46, 98, 10]),
    .file ⟨[47, 114, 47, 97, 47, 102, 46, 98]⟩ (.ok [102, 110]),
    .file ⟨[47, 114, 47, 97, 47, 103]⟩ (.error .denied),
    .file ⟨[47, 114, 47, 97, 46, 98]⟩ (.ok [102, 110]),
    .blocked ⟨[47, 114, 47, 99]⟩ .denied,
    .special ⟨[47, 114, 47, 100]⟩,
    .special ⟨[47, 114, 47, 108]⟩,
    .special ⟨[47, 114, 47, 112]⟩,
    .file ⟨[47, 114, 47, 115, 47, 102, 46, 98]⟩ (.error .denied),
    .excluded ⟨[47, 114, 47, 120]⟩]

/-- What the walk finds: the ignored file and what is below the excluded directory are missing. -/
theorem Walker.findings_ofEveryKind :
    Walker.ofEveryKind.findings .ofEveryKind ⟨[47, 114]⟩ = Finding.listOfEveryKind := by
  -- The layer comes first, for it is asked about each of the entries.
  have henter : Walker.ofEveryKind.enter .ofEveryKind [] ⟨[47, 114]⟩ 0 =
      [⟨0, [⟨false, false,
        ⟨"i.b", .ignoreFile, [.literal 'i', .literal '.', .literal 'b']⟩⟩], []⟩] := by
    cbv
  have hentries : Walker.ofEveryKind.entries .ofEveryKind ⟨[47, 114]⟩ =
      inNameOrder (Walker.ofEveryKind.belowEach .ofEveryKind
        (Walker.ofEveryKind.enter .ofEveryKind [] ⟨[47, 114]⟩ 0) ⟨[47, 114]⟩ []
        (Node.seenEach Node.entriesOfEveryKind)) :=
    rfl
  rw [Walker.findings, hentries, henter]
  cbv

theorem Walker.walk_ofEveryKind :
    Walker.ofEveryKind.walk .ofEveryKind ⟨Path.dot⟩ =
      .ok (.ofFindings Walker.ofEveryKind.rules Finding.listOfEveryKind) := by
  rw [← Walker.findings_ofEveryKind]
  exact Walker.walk_of_isDir _ (by decide)

/-- All three blocks have something in them, and the order of the defects is not that of their paths
    as texts. -/
theorem Walker.walk_increasing_ofEveryKind :
    FileTree.ofEveryKind.WellFormed ∧ FileTree.ofEveryKind.isDir ⟨Path.dot⟩ = true ∧
    ∃ (report : Report) (special excluded unchecked : List Path),
      Walker.ofEveryKind.walk .ofEveryKind ⟨Path.dot⟩ = .ok report ∧
      report.defects.Pairwise (fun a b => a.compare b = .lt) ∧
      report.defects.Nodup ∧
      report.skipped = special.map (⟨·, .notRegular⟩) ++ excluded.map (⟨·, .excluded⟩) ++
        unchecked.map (⟨·, .uncheckedExtension⟩) ∧
      special.Pairwise (fun p q => p.compare q = .lt) ∧
      excluded.Pairwise (fun p q => p.compare q = .lt) ∧
      unchecked.Pairwise (fun p q => p.compare q = .lt) ∧
      report.defects =
        [⟨⟨[47, 114, 47, 97, 47, 102, 46, 98]⟩, 1⟩, ⟨⟨[47, 114, 47, 97, 46, 98]⟩, 1⟩] ∧
      report.skipped =
        [⟨⟨[47, 114, 47, 100]⟩, .notRegular⟩, ⟨⟨[47, 114, 47, 108]⟩, .notRegular⟩,
          ⟨⟨[47, 114, 47, 112]⟩, .notRegular⟩, ⟨⟨[47, 114, 47, 120]⟩, .excluded⟩,
          ⟨⟨[47, 114, 47] ++ IgnoreLayer.sharedName⟩, .uncheckedExtension⟩,
          ⟨⟨[47, 114, 47, 97, 47, 103]⟩, .uncheckedExtension⟩] := by
  have htree : FileTree.ofEveryKind.WellFormed := by decide
  have hroot : FileTree.ofEveryKind.isDir ⟨Path.dot⟩ = true := by decide
  obtain ⟨report, special, excluded, unchecked, hwalk, hdefects, hnodup, hskipped, hlt⟩ :=
    Walker.ofEveryKind.walk_increasing htree hroot
  cases hwalk.symm.trans Walker.walk_ofEveryKind
  exact ⟨htree, hroot, _, special, excluded, unchecked, hwalk, hdefects, hnodup, hskipped,
    hlt.1, hlt.2.1, hlt.2.2, by decide +kernel, by decide +kernel⟩

end DocLint
