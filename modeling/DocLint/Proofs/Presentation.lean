-- SUMMARY: How a check is shown does not change what it finds: format, colour and detail leave the report and its defects alone.
import DocLint.Proofs.Colour
import DocLint.Proofs.Pages

/-! # Presentation

A check walks before it asks for its format, so the report is the same in all of them. For people
the output is a page: the roots, each with its defects, and the total. For programs it is a line
for each defect and one for the summary. Colour only wraps the text of a page, and details only
come after the warnings.
-/

namespace DocLint

/-! ## Texts without escape characters -/

theorem getLast?_append_ne {s t : String} (hne : t.toList ≠ []) (h : '\n' ∉ t.toList) :
    (s ++ t).toList.getLast? ≠ some '\n' := by
  intro hlast
  rw [String.toList_append, List.getLast?_append_of_ne_nil _ hne] at hlast
  exact h (List.mem_of_getLast? hlast)

/-- Neither the roots nor anything that a report names or says has an escape character in it. -/
structure Report.IsBare (report : Report) (roots : List Path) : Prop where
  roots : ∀ root ∈ roots, '\x1b' ∉ root.text.toList
  defects : ∀ d ∈ report.defects, '\x1b' ∉ d.file.text.toList
  skipped : ∀ s ∈ report.skipped, '\x1b' ∉ s.path.text.toList
  warnings : ∀ message ∈ report.warnings, '\x1b' ∉ message.toList

/-! ## Pages -/

namespace Human

theorem tidy_summary (total : Nat) : Piece.Tidy (summary total) := by
  unfold summary
  split
  · have hblank : Piece.Tidy [.text "\n"] := Piece.tidy_plain (by simp)
    exact hblank.append (Piece.tidy_line _ _ (getLast?_append_ne (by simp) (by simp)))
  · exact Piece.tidy_line _ _ (by simp)

/-- On a page every colour is reset before its line ends. -/
theorem tidy_page (sections : List (Path × List Defect)) (total : Nat) :
    Piece.Tidy (page sections total) := by
  refine Piece.Tidy.append (Piece.Tidy.flatMap fun s _ => ?_) (tidy_summary total)
  refine Piece.Tidy.append (Piece.tidy_plain (by simp [rootHeader])) ?_
  refine Piece.Tidy.flatMap fun d _ => Piece.tidy_line _ _ ?_
  exact getLast?_append_ne (by simp [Nat.toDigits_ne_nil])
    (by simpa using notMem_toDigits (by decide) d.line)

theorem isBare_summary (total : Nat) : ∀ p ∈ summary total, p.IsBare := by
  have htotal := notMem_toDigits (c := '\x1b') (by decide) total
  unfold summary
  split <;> simp [Piece.IsBare, htotal]

theorem isBare_rootHeader {root : Path} (h : '\x1b' ∉ root.text.toList) :
    ∀ p ∈ rootHeader root, p.IsBare := by
  simp [rootHeader, Piece.IsBare, h]

theorem isBare_defect {d : Defect} (h : '\x1b' ∉ d.file.text.toList) :
    ∀ p ∈ defect d, p.IsBare := by
  have hline := notMem_toDigits (c := '\x1b') (by decide) d.line
  have hmessage : '\x1b' ∉ d.message.toList := by
    unfold Defect.message
    simp [h, hline]
  simp [defect, Piece.IsBare, hmessage]

/-- There are no escape characters on a page but those of colours, if no name has one. -/
theorem isBare_page {sections : List (Path × List Defect)} {report : Report}
    (hdefects : sections.flatMap (·.2) = report.defects)
    (h : report.IsBare (sections.map (·.1))) (total : Nat) :
    ∀ p ∈ page sections total, p.IsBare := by
  intro p hp
  rcases List.mem_append.mp hp with hp | hp
  · obtain ⟨s, hs, hp⟩ := List.mem_flatMap.mp hp
    rcases List.mem_append.mp hp with hp | hp
    · exact isBare_rootHeader (h.roots s.1 (List.mem_map_of_mem hs)) p hp
    · obtain ⟨d, hd, hp⟩ := List.mem_flatMap.mp hp
      have hmem : d ∈ report.defects := hdefects ▸ List.mem_flatMap_of_mem hs hd
      exact isBare_defect (h.defects d hmem) p hp
  · exact isBare_summary total p hp

end Human

namespace Command

/-! ## What a check writes -/

/-- Details come after everything else. -/
theorem sidePage_extends (verbose : Bool) (report : Report) :
    sidePage false report <+: sidePage verbose report := by
  simp [sidePage]

theorem bytesOf_render_extends (coloured : Bool) {pieces more : List Piece} (h : pieces <+: more) :
    Sink.bytesOf (render coloured pieces) <+: Sink.bytesOf (render coloured more) := by
  obtain ⟨rest, rfl⟩ := h
  refine ⟨Sink.bytesOf (render coloured rest), ?_⟩
  simp [Sink.bytesOf, render]

theorem tidy_sidePage (verbose : Bool) (report : Report) :
    Piece.Tidy (sidePage verbose report) := by
  refine Piece.Tidy.append (Piece.Tidy.flatMap fun message _ => ?_) (Piece.tidy_plain ?_)
  · exact Piece.tidy_line _ _ (by simp)
  · intro p hp colour bold
    split at hp
    · obtain ⟨line, _, rfl⟩ := List.mem_map.mp hp
      nofun
    · cases hp

theorem isBare_sidePage {report : Report} {roots : List Path} (h : report.IsBare roots)
    (verbose : Bool) : ∀ p ∈ sidePage verbose report, p.IsBare := by
  intro p hp
  rcases List.mem_append.mp hp with hp | hp
  · obtain ⟨message, hmessage, hp⟩ := List.mem_flatMap.mp hp
    have hbare : ∀ p ∈ Human.warning message, p.IsBare := by
      simp [Human.warning, Piece.IsBare, h.warnings message hmessage]
    exact hbare p hp
  · split at hp
    · obtain ⟨line, hline, rfl⟩ := List.mem_map.mp hp
      rcases List.mem_append.mp hline with hline | hline
      · obtain ⟨s, hs, rfl⟩ := List.mem_map.mp hline
        have hpath := h.skipped s hs
        cases hreason : s.reason <;>
          simp [Piece.IsBare, skippedLine, hpath, hreason, SkipReason.text]
      · obtain rfl := List.mem_singleton.mp hline
        have hcount := notMem_toDigits (c := '\x1b') (by decide) report.filesChecked.toNat
        simp [Piece.IsBare, hcount]
    · cases hp

/-! ## The same check in every presentation -/

theorem taken_eq {sink : Sink} {pieces : List String} (h : sink.bytes = Sink.bytesOf pieces) :
    sink.taken.toList = pieces.flatMap String.toList := by
  rw [Sink.taken, String.toList_ofList, h, Sink.bytesOf_eq_encode, Text.Utf8.lossy_encode]

/-- What a sink has taken in colour, without the sequences, is what a plain one has taken. -/
theorem uncoloured_taken {pieces : List Piece} (hbare : ∀ p ∈ pieces, p.IsBare) {coloured : Bool}
    {sink plain : Sink} (hsink : sink.bytes = Sink.bytesOf (render coloured pieces))
    (hplain : plain.bytes = Sink.bytesOf (render false pieces)) :
    Text.uncoloured sink.taken.toList = plain.taken.toList := by
  rw [taken_eq hsink, taken_eq hplain, uncoloured_render hbare]

/-- How a check is written whose walker can be made. -/
theorem execute_shown {tree : FileTree} {check : CheckSettings} {output : OutputSettings}
    {w : Walker} (hw : Config.walker ⟨check, output⟩ = .ok w)
    (hroots : ∀ root ∈ check.roots, tree.isDir root = true) {out err : Sink}
    (hout : out.TakesAll) (herr : err.TakesAll) (hnewOut : out.log = []) (hnewErr : err.log = [])
    (verbose : Bool) (colour : Colouring) :
    let run := execute tree ⟨check, output⟩ verbose colour out err
    let report := w.total tree check.roots
    run.result = .ok report ∧
    (output.format = .human → run.out.bytes = Sink.bytesOf
      (render colour.out (Human.page (w.sections tree check.roots) report.defects.length))) ∧
    (output.format = .jsonl → run.out.bytes =
      Sink.bytesOf ((Jsonl.records check.roots report).map Jsonl.line)) ∧
    run.err.bytes = Sink.bytesOf (render colour.err (sidePage verbose report)) := by
  intro run report
  have hnew {sink : Sink} (h : sink.log = []) : sink.bytes = [] := by simp [Sink.bytes, h]
  obtain ⟨hresult, hrunOut, hrunErr⟩ :=
    execute_of_takesAll (walked_of_isDir hw hroots) verbose colour hout herr
  rw [hnew hnewOut, List.nil_append] at hrunOut
  rw [hnew hnewErr, List.nil_append, errPieces_eq] at hrunErr
  refine ⟨hresult, fun hformat => ?_, fun hformat => ?_, hrunErr⟩
  · rw [hrunOut, outPieces_human hformat]
  · rw [hrunOut, outPieces_jsonl hformat, Walker.told_defects]
    rfl

/-- What the runs of one check leave that has come to a report, in each format, with or without
    details, and in each colouring. -/
structure Presents (run : OutputSettings → Bool → Colouring → CheckResult) (roots : List Path)
    (report : Report) (sections : List (Path × List Defect)) : Prop where
  sections_roots : sections.map (·.1) = roots
  sections_defects : sections.flatMap (·.2) = report.defects
  /-- People get the page of the roots and their defects. -/
  human : ∀ o v c, o.format = .human →
    (run o v c).out.bytes = Sink.bytesOf (Page.lines c.out sections)
  /-- Programs get the records of the same defects. -/
  jsonl : ∀ o v c, o.format = .jsonl →
    ∃ text, Text.Utf8.decode? (run o v c).out.bytes = some text ∧ Jsonl.Tells roots report text
  side : ∀ o v c, (run o v c).err.bytes = Sink.bytesOf (Page.sideLines c.err v report)
  /-- The page is made of pieces with marks for colour, and each mark is taken back before the
      line ends. -/
  marks : Piece.Tidy (Human.page sections report.defects.length) ∧
    (∀ o v c, o.format = .human → (run o v c).out.bytes =
      Sink.bytesOf (render c.out (Human.page sections report.defects.length))) ∧
    ∀ v, Piece.Tidy (sidePage v report) ∧ ∀ o c, (run o v c).err.bytes =
      Sink.bytesOf (render c.err (sidePage v report))
  /-- Without its sequences coloured text is the plain text. -/
  uncoloured : report.IsBare roots → ∀ o v c,
    (o.format = .human → Text.uncoloured (run o v c).out.taken.toList =
      (run o v .plain).out.taken.toList) ∧
    Text.uncoloured (run o v c).err.taken.toList = (run o v .plain).err.taken.toList
  /-- A reader of the page finds the defects of the report, in their order, and their number. -/
  read : report.IsBare roots → Page.Unbroken roots report.defects → ∀ o v c, o.format = .human →
    Page.read? (Text.uncoloured (run o v c).out.taken.toList) =
      some (report.defects.map fun d => (d.file.text, d.line), report.defects.length)

/-- The presentations of a check whose walker can be made. -/
theorem presents_execute {tree : FileTree} {check : CheckSettings} {w : Walker}
    (hw : Config.walker ⟨check, {}⟩ = .ok w)
    (hroots : ∀ root ∈ check.roots, tree.isDir root = true) {out err : Sink}
    (hout : out.TakesAll) (herr : err.TakesAll) (hnewOut : out.log = []) (hnewErr : err.log = []) :
    Presents (fun o v c => execute tree ⟨check, o⟩ v c out err) check.roots
      (w.total tree check.roots) (w.sections tree check.roots) := by
  -- The output settings are nothing to the walker, so it is one walker for all the runs.
  have hshown (o : OutputSettings) :=
    execute_shown (show Config.walker ⟨check, o⟩ = .ok w from hw) hroots hout herr hnewOut hnewErr
  have hdefects := w.sections_defects tree check.roots
  have hroots := w.sections_roots tree check.roots
  generalize w.total tree check.roots = report at hshown hdefects
  generalize w.sections tree check.roots = sections at hshown hdefects hroots
  have hhuman (o : OutputSettings) (v : Bool) (c : Colouring) := (hshown o v c).2.1
  have hjsonl (o : OutputSettings) (v : Bool) (c : Colouring) := (hshown o v c).2.2.1
  have herrs (o : OutputSettings) (v : Bool) (c : Colouring) := (hshown o v c).2.2.2
  have hpage (hbare : report.IsBare check.roots) :
      ∀ p ∈ Human.page sections report.defects.length, p.IsBare :=
    Human.isBare_page hdefects (hroots ▸ hbare) _
  refine ⟨hroots, hdefects, ?_, ?_, ?_, ?_, ?_, ?_⟩
  · intro o v c hformat
    rw [hhuman o v c hformat, ← hdefects, bytesOf_page]
  · intro o v c hformat
    rw [hjsonl o v c hformat, Sink.decode?_bytesOf]
    exact ⟨_, rfl, Jsonl.tells_records check.roots report⟩
  · intro o v c
    rw [herrs, bytesOf_sidePage]
  · exact ⟨Human.tidy_page _ _, hhuman, fun v => ⟨tidy_sidePage v _, fun o c => herrs o v c⟩⟩
  · intro hbare o v c
    exact ⟨fun hformat => uncoloured_taken (hpage hbare) (hhuman o v c hformat)
        (hhuman o v .plain hformat),
      uncoloured_taken (isBare_sidePage hbare v) (herrs o v c) (herrs o v .plain)⟩
  · intro hbare hunbroken o v c hformat
    have hplain := hhuman o v .plain hformat
    rw [uncoloured_taken (hpage hbare) (hhuman o v c hformat) hplain]
    rw [← hdefects, bytesOf_page] at hplain
    rw [taken_eq hplain, ← String.toList_join, ← hdefects]
    exact Page.read?_lines (by rwa [hroots, hdefects])

/-- A check of roots that are all directories, shown in any format, with or without details and
    colour, gives one and the same report, if there is a walker for it. Both formats show the
    defects of the report in its order, and their number. Details only come after what is said
    without them, and colour is nothing to programs. -/
theorem execute_presentation (tree : FileTree) (check : CheckSettings)
    (hroots : ∀ root ∈ check.roots, tree.isDir root = true) {out err : Sink}
    (hout : out.TakesAll) (herr : err.TakesAll) (hnewOut : out.log = []) (hnewErr : err.log = []) :
    let run (output : OutputSettings) (verbose : Bool) (colour : Colouring) :=
      execute tree ⟨check, output⟩ verbose colour out err
    (∀ o v c o' v' c', (run o v c).result = (run o' v' c').result) ∧
    (∀ o v c w, Config.walker ⟨check, o⟩ = .ok w → ∃ report, (run o v c).result = .ok report) ∧
    (∀ o v c, (run o v c).out.bytes = (run o false c).out.bytes ∧
      (run o false c).err.bytes <+: (run o v c).err.bytes) ∧
    (∀ o v c c', o.format = .jsonl → (run o v c).out.bytes = (run o v c').out.bytes) ∧
    ∀ o v c report, (run o v c).result = .ok report →
      ∃ sections, Presents run check.roots report sections := by
  intro run
  cases hw : Config.walker ⟨check, {}⟩ with
  | error e =>
    have hrun (o : OutputSettings) (v : Bool) (c : Colouring) :
        run o v c = ⟨.error (.walk e), out, err⟩ := by
      have hw' : Config.walker ⟨check, o⟩ = .error e := hw
      exact execute_eq_of_walk_failed (walked_of_walker_failed hw' tree) v c out err
    have hnone (o : OutputSettings) (w : Walker) : Config.walker ⟨check, o⟩ ≠ .ok w := by
      intro hw'
      cases hw.symm.trans hw'
    simp [hrun, hnone]
  | ok w =>
    have hshown (o : OutputSettings) :=
      execute_shown (show Config.walker ⟨check, o⟩ = .ok w from hw) hroots hout herr hnewOut hnewErr
    refine ⟨fun o v c o' v' c' => ?_, fun o v c _ _ => ⟨_, (hshown o v c).1⟩,
      fun o v c => ⟨?_, ?_⟩, fun o v c c' hformat => ?_, fun o v c report hreport => ?_⟩
    · exact (hshown o v c).1.trans (hshown o' v' c').1.symm
    · cases hformat : o.format with
      | human => exact ((hshown o v c).2.1 hformat).trans ((hshown o false c).2.1 hformat).symm
      | jsonl => exact ((hshown o v c).2.2.1 hformat).trans ((hshown o false c).2.2.1 hformat).symm
    · rw [(hshown o v c).2.2.2, (hshown o false c).2.2.2]
      exact bytesOf_render_extends c.err (sidePage_extends v _)
    · exact ((hshown o v c).2.2.1 hformat).trans ((hshown o v c').2.2.1 hformat).symm
    · obtain rfl : w.total tree check.roots = report :=
        Except.ok.inj ((hshown o v c).1.symm.trans hreport)
      exact ⟨_, presents_execute hw hroots hout herr hnewOut hnewErr⟩

end Command

/-- Two directories. One has a file without a comment, a file that cannot be read and a link, the
    other one a file whose second line lacks a comment. -/
def FileTree.ofTwoRoots : FileTree where
  root := .dir .full
    [([97], .dir .full [([120, 46, 98], .file .full [102, 110]), ([121, 46, 98], .file .nothing []),
        ([122], .link ⟨[120]⟩)]),
      ([98], .dir .full [([122, 46, 98], .file .full [10, 102, 110])])]
  cwd := []

/-- Settings for these directories. -/
def CheckSettings.ofTwoRoots : CheckSettings where
  roots := [⟨[97]⟩, ⟨[98]⟩]
  extensions := ["b"]
  keywords := ["fn"]

/-- The walker of these settings. -/
def Walker.ofTwoRoots : Walker where
  rules := ⟨["b"], ["fn"], ["//", "/*", "*/", "*"], "///"⟩
  exclude := []
  gitignore := false

/-- What is found in these directories. -/
def Report.ofTwoRoots : Report where
  defects := [⟨⟨[47, 97, 47, 120, 46, 98]⟩, 1⟩, ⟨⟨[47, 98, 47, 122, 46, 98]⟩, 2⟩]
  filesChecked := 2
  skipped := [⟨⟨[47, 97, 47, 122]⟩, .notRegular⟩]
  warnings := [readWarning ⟨[47, 97, 47, 121, 46, 98]⟩ .denied]

theorem Walker.total_ofTwoRoots :
    Walker.ofTwoRoots.total .ofTwoRoots CheckSettings.ofTwoRoots.roots = .ofTwoRoots := by
  have hfirst : Walker.ofTwoRoots.findings .ofTwoRoots ⟨[47, 97]⟩ =
      [.file ⟨[47, 97, 47, 120, 46, 98]⟩ (.ok [102, 110]),
        .file ⟨[47, 97, 47, 121, 46, 98]⟩ (.error .denied), .special ⟨[47, 97, 47, 122]⟩] := by
    cbv
  have hsecond : Walker.ofTwoRoots.findings .ofTwoRoots ⟨[47, 98]⟩ =
      [.file ⟨[47, 98, 47, 122, 46, 98]⟩ (.ok [10, 102, 110])] := by
    cbv
  have habsolute : (⟨[97]⟩ : Path).absolute FileTree.ofTwoRoots.cwdPath = ⟨[47, 97]⟩ ∧
      (⟨[98]⟩ : Path).absolute FileTree.ofTwoRoots.cwdPath = ⟨[47, 98]⟩ := by
    decide
  rw [CheckSettings.ofTwoRoots, total_cons, total_cons, total_nil, reportOn, reportOn, report,
    report, habsolute.1, habsolute.2, hfirst, hsecond]
  rfl

/-- Two roots with a defect each. A reader finds both in every presentation. -/
theorem Command.execute_presentation_ofTwoRoots :
    (∀ root ∈ CheckSettings.ofTwoRoots.roots, FileTree.ofTwoRoots.isDir root = true) ∧
    Sink.unlimited.TakesAll ∧ Sink.unlimited.log = [] ∧
    let run (output : OutputSettings) (verbose : Bool) (colour : Colouring) :=
      execute .ofTwoRoots ⟨.ofTwoRoots, output⟩ verbose colour .unlimited .unlimited
    (∀ o v c, (run o v c).result = .ok .ofTwoRoots) ∧
    (∀ v c, Page.read? (Text.uncoloured (run {} v c).out.taken.toList) =
      some ([("/a/x.b", 1), ("/b/z.b", 2)], 2)) ∧
    (∀ o v c, Text.uncoloured (run o v c).err.taken.toList = (run o v .plain).err.taken.toList) ∧
    ∀ v c, ∃ text, Text.Utf8.decode? (run ⟨.jsonl, .auto⟩ v c).out.bytes = some text ∧
      Jsonl.Tells [⟨[97]⟩, ⟨[98]⟩] .ofTwoRoots text := by
  have hroots : ∀ root ∈ CheckSettings.ofTwoRoots.roots,
      FileTree.ofTwoRoots.isDir root = true := by
    decide
  have hw : Config.walker ⟨.ofTwoRoots, {}⟩ = .ok .ofTwoRoots := by rfl
  have hbare : Report.ofTwoRoots.IsBare CheckSettings.ofTwoRoots.roots := by
    constructor <;> decide
  have hunbroken : Page.Unbroken CheckSettings.ofTwoRoots.roots Report.ofTwoRoots.defects := by
    constructor <;> decide
  obtain ⟨hsame, _, _, _, hreport⟩ := execute_presentation FileTree.ofTwoRoots .ofTwoRoots hroots
    Sink.takesAll_unlimited Sink.takesAll_unlimited rfl rfl
  have hresult := (execute_unlimited (walked_of_isDir hw hroots) true .plain).1
  rw [Walker.total_ofTwoRoots] at hresult
  obtain ⟨sections, hpresents⟩ := hreport {} true .plain _ hresult
  refine ⟨hroots, Sink.takesAll_unlimited, rfl,
    fun o v c => (hsame o v c {} true .plain).trans hresult, fun v c => ?_,
    fun o v c => (hpresents.uncoloured hbare o v c).2, fun v c => hpresents.jsonl _ v c rfl⟩
  rw [hpresents.read hbare hunbroken {} v c rfl]
  decide

end DocLint
