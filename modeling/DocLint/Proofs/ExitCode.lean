-- SUMMARY: The exit code of a check: what decides it, and what has been written by then.
import DocLint.Proofs.Defects
import DocLint.Proofs.Endings
import DocLint.Proofs.Nesting
import DocLint.Proofs.Pages
import DocLint.Proofs.Settings
import Mathlib

/-! # Exit codes

A check ends in one of four ways. Its settings file is not one, something else is wrong before
the walk, or the walk is done and there are defects or not. The four leave no case out, and each
has its own code, so the code tells which of them it was.
-/

namespace DocLint

/-! ## Defects in the total -/

/-- A report passes exactly if no line of a checked file lacks its comment. -/
theorem Walker.total_passed_iff {w : Walker} (hkeys : w.rules.Spaceless) {tree : FileTree}
    (htree : tree.WellFormed) {roots : List Path}
    (hroots : ∀ root ∈ roots, tree.isDir root = true) :
    (w.total tree roots).passed = true ↔
      ¬ ∃ root ∈ roots, ∃ path text n, w.Checks tree root path text ∧ 1 ≤ n ∧
        w.rules.LacksComment (Text.physicalLines text) n := by
  rw [Report.passed, List.isEmpty_iff, List.eq_nil_iff_forall_not_mem, w.total_defects]
  constructor
  · rintro h ⟨root, hroot, path, text, n, hchecks, hn, hlacks⟩
    refine h ⟨path, n⟩ (List.mem_flatMap.mpr ⟨root, hroot, ?_⟩)
    refine (mem_reportOn_defects_iff htree (hroots root hroot)).mpr ⟨path, text, hchecks, ?_⟩
    exact (Rules.mem_checkSource_iff hkeys path text _).mpr ⟨rfl, hn, hlacks⟩
  · intro h d hd
    obtain ⟨root, hroot, hd⟩ := List.mem_flatMap.mp hd
    obtain ⟨path, text, hchecks, hd⟩ :=
      (mem_reportOn_defects_iff htree (hroots root hroot)).mp hd
    obtain ⟨_, hn, hlacks⟩ := (Rules.mem_checkSource_iff hkeys path text d).mp hd
    exact h ⟨root, hroot, path, text, d.line, hchecks, hn, hlacks⟩

namespace Command

variable {host : Host} {tree : FileTree} {named : Option Path} {paths : List String}
  {config : Config}

/-! ## The ways a check can end -/

/-- The roots of a check: the paths of the command line, else the roots of the settings. -/
def rootsOf (config : Config) (paths : List String) : List Path :=
  if paths = [] then config.check.roots else paths.map .ofString

/-- Something is wrong before the walk, and not the form of the settings file. -/
inductive Fails (tree : FileTree) (named : Option Path) (paths : List String) : Prop where
  | unreadable : Unreadable tree named → Fails tree named paths
  | invalid {config : Config} :
    StartsFrom tree named config → ¬ config.IsValid → Fails tree named paths
  /-- The settings are valid, but their exclude globs cannot be in one set. -/
  | noSet {config : Config} :
    StartsFrom tree named config → config.IsValid → ¬ config.MakesSet → Fails tree named paths
  | missingRoot {config : Config} {root : Path} :
    StartsFrom tree named config → config.IsValid → root ∈ rootsOf config paths →
      tree.isDir root = false → Fails tree named paths

/-- A file that is checked below one of the roots has a declaration that lacks its comment. -/
def HasUndocumented (tree : FileTree) (named : Option Path) (paths : List String) : Prop :=
  ∃ config w, StartsFrom tree named config ∧ config.walker = .ok w ∧
    ∃ root ∈ rootsOf config paths, ∃ path text n, w.Checks tree root path text ∧ 1 ≤ n ∧
      w.rules.LacksComment (Text.physicalLines text) n

/-- What is left if nothing is wrong before the walk. -/
theorem ready_of_not_fails (hmalformed : ¬ Malformed tree named)
    (hfails : ¬ Fails tree named paths) :
    ∃ config, StartsFrom tree named config ∧ config.IsValid ∧ config.MakesSet ∧
      ∀ root ∈ rootsOf config paths, tree.isDir root = true := by
  rcases settings_cases tree named with hunreadable | h | ⟨config, hstarts⟩
  · exact absurd (.unreadable hunreadable) hfails
  · exact absurd h hmalformed
  · have hvalid : config.IsValid := by
      by_contra h
      exact hfails (.invalid hstarts h)
    refine ⟨config, hstarts, hvalid, ?_, ?_⟩
    · by_contra h
      exact hfails (.noSet hstarts hvalid h)
    · intro root hroot
      by_contra h
      exact hfails (.missingRoot hstarts hvalid hroot (Bool.eq_false_iff.mpr h))

/-! ## What a run comes to -/

section Runs

variable (overrides : Config.Overrides) (verbose : Bool)

/-- Without settings there is no walk, and the code says whether they could be read as such. -/
theorem runCheck_of_prepare_failed {e : Config.Error} (h : prepare tree named overrides = .error e)
    {parse : Bool} (hparse : e.isParse = parse) :
    let r := runCheck host tree named overrides verbose .unlimited .unlimited
    r.exitCode = (if parse then 3 else 2) ∧ r.out.bytes = [] := by
  simp only [runCheck, h, hparse, endWithError_of_takesAll _ _ _ _ Sink.takesAll_unlimited,
    (endsWithError ..).out_eq]
  exact ⟨trivial, rfl⟩

/-- A check without a report ends with 2 and has written nothing to `out`. -/
theorem runCheck_of_walk_failed (h : prepare tree named overrides = .ok config) {e : WalkError}
    (hwalk : walked tree config = .error e) :
    let r := runCheck host tree named overrides verbose .unlimited .unlimited
    r.exitCode = 2 ∧ r.out.bytes = [] := by
  simp only [runCheck, h, execute_eq_of_walk_failed hwalk]
  exact ⟨endCheck_of_takesAll rfl Sink.takesAll_unlimited _ _ _, by rw [endCheck_out]; rfl⟩

/-- A check with a report has written all of it, and its code says whether there are defects. -/
theorem runCheck_of_walked (h : prepare tree named overrides = .ok config) {events : List Event}
    {report : Report} (hwalk : walked tree config = .ok (events, report)) :
    let r := runCheck host tree named overrides verbose .unlimited .unlimited
    r.exitCode = (if report.passed then 0 else 1) ∧
      r.out.bytes = Sink.bytesOf
        (outPieces config (host.colouring config.output.colour).out events report) := by
  obtain ⟨hresult, hbytes, _⟩ :=
    execute_unlimited hwalk verbose (host.colouring config.output.colour)
  simp only [runCheck, h, endCheck_of_ok hresult]
  exact ⟨trivial, hbytes⟩

end Runs

/-! ## The code of each end -/

section Ends

variable (format : Option Format) (verbose : Bool) (colour : Option ColourChoice)

theorem override_roots (config : Config) (paths : List String) :
    (config.override ⟨paths.map .ofString, format, colour⟩).check.roots = rootsOf config paths := by
  cases paths <;> rfl

/-- The command line has no say in what the walker skips or asks for. -/
theorem override_walker (config : Config) (overrides : Config.Overrides) :
    (config.override overrides).walker = config.walker := rfl

theorem run_of_malformed (h : Malformed tree named) :
    let r := run host tree ⟨.check paths named format verbose, colour⟩ .unlimited .unlimited
    r.exitCode = 3 ∧ r.out.bytes = [] := by
  obtain ⟨e, hprepare, he⟩ := h.prepare ⟨paths.map .ofString, format, colour⟩
  exact runCheck_of_prepare_failed _ verbose hprepare he

/-- Valid settings whose globs make no set end the run before the walk. -/
theorem run_of_no_set (hstarts : StartsFrom tree named config) (hvalid : config.IsValid)
    (hset : ¬ config.MakesSet) :
    let r := run host tree ⟨.check paths named format verbose, colour⟩ .unlimited .unlimited
    r.exitCode = 2 ∧ r.out.bytes = [] := by
  obtain ⟨e, hw⟩ := hvalid.walker_of_no_set hset
  apply runCheck_of_walk_failed _ verbose (hstarts.prepare_of_valid _ hvalid)
  exact walked_of_walker_failed ((override_walker config _).trans hw) tree

/-- Everything else that can be wrong before the walk ends with 2, too. -/
theorem run_of_fails (h : Fails tree named paths) :
    let r := run host tree ⟨.check paths named format verbose, colour⟩ .unlimited .unlimited
    r.exitCode = 2 ∧ r.out.bytes = [] := by
  cases h with
  | unreadable h =>
    obtain ⟨e, hprepare, he⟩ := h.prepare ⟨paths.map .ofString, format, colour⟩
    exact runCheck_of_prepare_failed _ verbose hprepare he
  | invalid hstarts hinvalid =>
    obtain ⟨e, hprepare, he⟩ :=
      hstarts.prepare_of_invalid ⟨paths.map .ofString, format, colour⟩ hinvalid
    exact runCheck_of_prepare_failed _ verbose hprepare he
  | noSet hstarts hvalid hset => exact run_of_no_set format verbose colour hstarts hvalid hset
  | @missingRoot config root hstarts hvalid hroot hmissing =>
    by_cases hset : config.MakesSet
    · obtain ⟨w, hw, _⟩ := hset.walker
      obtain ⟨first, hfirst⟩ := Walker.exists_firstMissing_iff.mpr ⟨root, hroot, hmissing⟩
      rw [← override_roots format colour] at hfirst
      apply runCheck_of_walk_failed _ verbose (hstarts.prepare_of_valid _ hvalid)
      exact walked_of_firstMissing ((override_walker config _).trans hw) hfirst
    · exact run_of_no_set format verbose colour hstarts hvalid hset

/-- A check with nothing wrong before the walk has a report. It shows the report, and the code says
    whether there are defects. -/
theorem run_of_ready (htree : tree.WellFormed) (hstarts : StartsFrom tree named config)
    (hvalid : config.IsValid) (hset : config.MakesSet)
    (hroots : ∀ root ∈ rootsOf config paths, tree.isDir root = true) :
    let r := run host tree ⟨.check paths named format verbose, colour⟩ .unlimited .unlimited
    let settings := config.override ⟨paths.map .ofString, format, colour⟩
    ∃ events report, walked tree settings = .ok (events, report) ∧
      (report.passed = true ↔ ¬ HasUndocumented tree named paths) ∧
      (events.filterMap Event.defect?).length = report.defectCount ∧
      r.exitCode = (if report.passed then 0 else 1) ∧
      Shows settings.check.roots (host.colouring settings.output.colour).out report
        settings.output.format r.out.bytes := by
  intro r settings
  obtain ⟨w, hw, hrules⟩ := hset.walker
  have hsettings : settings.check.roots = rootsOf config paths :=
    override_roots format colour config paths
  have hwalk := walked_of_isDir ((override_walker config _).trans hw)
    (hsettings ▸ hroots)
  obtain ⟨hcode, hout⟩ :=
    runCheck_of_walked _ verbose (hstarts.prepare_of_valid _ hvalid) hwalk
  refine ⟨_, _, hwalk, ?_, ?_, hcode, ?_⟩
  · have hkeys : w.rules.Spaceless := by
      rw [hrules]
      exact hvalid.spaceless
    rw [hsettings, Walker.total_passed_iff hkeys htree hroots]
    apply not_congr
    constructor
    · intro h
      exact ⟨config, w, hstarts, hw, h⟩
    · rintro ⟨config', w', hstarts', hw', h⟩
      obtain rfl := hstarts.unique hstarts'
      cases hw.symm.trans hw'
      exact h
  · rw [w.told_defects]
    rfl
  · have hshows := shows_outPieces settings (host.colouring settings.output.colour).out w tree
    rwa [← hout] at hshows

end Ends

/-- What decides the exit code of a check. It is 3 if the settings file is not one, 2 if
    something else is wrong before the walk, and else 1 or 0, by whether a declaration in a
    checked file lacks its comment. For 2 and 3 nothing is written to `out`. For 0 and 1 the report
    is written: its defects and then the summary with their number. -/
theorem run_exitCode (host : Host) (tree : FileTree) (htree : tree.WellFormed) (paths : List String)
    (named : Option Path) (format : Option Format) (verbose : Bool)
    (colour : Option ColourChoice) :
    let r := run host tree ⟨.check paths named format verbose, colour⟩ .unlimited .unlimited
    (r.exitCode = 3 ↔ Malformed tree named) ∧
    (r.exitCode = 2 ↔ Fails tree named paths) ∧
    (r.exitCode = 1 ↔ ¬ Malformed tree named ∧ ¬ Fails tree named paths ∧
      HasUndocumented tree named paths) ∧
    (r.exitCode = 0 ↔ ¬ Malformed tree named ∧ ¬ Fails tree named paths ∧
      ¬ HasUndocumented tree named paths) ∧
    (r.exitCode = 2 ∨ r.exitCode = 3 → r.out.bytes = []) ∧
    (r.exitCode = 0 ∨ r.exitCode = 1 → ∃ config events report,
      StartsFrom tree named config ∧
      let settings := config.override ⟨paths.map .ofString, format, colour⟩
      walked tree settings = .ok (events, report) ∧
      Shows settings.check.roots (host.colouring settings.output.colour).out report
        settings.output.format r.out.bytes ∧
      report.defectCount = (events.filterMap Event.defect?).length ∧
      (report.defectCount = 0 ↔ r.exitCode = 0)) := by
  intro r
  have hmalformed (h : Malformed tree named) : r.exitCode = 3 ∧ r.out.bytes = [] :=
    run_of_malformed format verbose colour h
  have hfails (h : Fails tree named paths) : r.exitCode = 2 ∧ r.out.bytes = [] :=
    run_of_fails format verbose colour h
  by_cases hm : Malformed tree named
  · obtain ⟨hcode, hout⟩ := hmalformed hm
    have hnf : ¬ Fails tree named paths := by
      intro h
      rw [(hfails h).1] at hcode
      cases hcode
    simp [hcode, hm, hnf, hout]
  by_cases hf : Fails tree named paths
  · obtain ⟨hcode, hout⟩ := hfails hf
    simp [hcode, hm, hf, hout]
  obtain ⟨config, hstarts, hvalid, hset, hroots⟩ := ready_of_not_fails hm hf
  obtain ⟨events, report, hwalk, hpassed, hcount, hcode, hout⟩ :=
    run_of_ready format verbose colour htree hstarts hvalid hset hroots
  have hcases : r.exitCode = 0 ∧ ¬ HasUndocumented tree named paths ∨
      r.exitCode = 1 ∧ HasUndocumented tree named paths := by
    cases hp : report.passed with
    | true => exact .inl ⟨by simpa [hp] using hcode, hpassed.mp hp⟩
    | false => exact .inr ⟨by simpa [hp] using hcode, by simpa [hp] using hpassed⟩
  have hzero : report.defectCount = 0 ↔ r.exitCode = 0 := by
    rw [← report.passed_iff_defectCount, hcode]
    cases report.passed <;> simp
  refine ⟨?_, ?_, ?_, ?_, ?_, fun _ =>
    ⟨config, events, report, hstarts, hwalk, hout, hcount.symm, hzero⟩⟩
  all_goals
    rcases hcases with ⟨hcode, hundocumented⟩ | ⟨hcode, hundocumented⟩ <;>
      simp [hcode, hm, hf, hundocumented]

end Command

/-- A file of the usual extension in the usual root, with a declaration and nothing above it. -/
def FileTree.ofSource : FileTree where
  root := .dir .full
    [((Path.ofString "src").bytes,
      .dir .full [((Path.ofString "a.rs").bytes, .file .full [102, 110])])]
  cwd := []

/-- One declaration without a comment, no settings file: code 1, and this page. -/
theorem Command.run_exitCode_ofSource :
    let r := run {} .ofSource ⟨.check [] none none false, none⟩ .unlimited .unlimited
    FileTree.ofSource.WellFormed ∧ ¬ Malformed .ofSource none ∧ ¬ Fails .ofSource none [] ∧
      HasUndocumented .ofSource none [] ∧ r.exitCode = 1 ∧
      r.out.taken = "\nChecking for missing comments in ./src...\n" ++
        "Missing Comment: /src/a.rs, line 1\n\n🚨 1 missing comments found!\n" := by
  intro r
  have htree : FileTree.ofSource.WellFormed := by
    decide
  have hstarts : StartsFrom .ofSource none .default := .inl ⟨by rfl, rfl⟩
  have hwalk : walked .ofSource (Config.default.override {}) =
      .ok ([.rootStarted (.ofString "./src"), .defect ⟨.ofString "/src/a.rs", 1⟩],
        { defects := [⟨.ofString "/src/a.rs", 1⟩], filesChecked := 1 }) := by
    cbv
  obtain ⟨hcode, hout⟩ := runCheck_of_walked  {} false
    (hstarts.prepare_of_valid {} Config.isValid_default) hwalk
  have hcode : r.exitCode = 1 := hcode
  obtain ⟨hmalformed, hfails, hlacks⟩ :=
    (run_exitCode {} .ofSource htree [] none none false none).2.2.1.mp hcode
  refine ⟨htree, hmalformed, hfails, hlacks, hcode, ?_⟩
  have hout : r.out.bytes = _ := hout
  rw [Sink.taken, hout]
  decide

/-! ## A glob too many -/

/-- A settings file in the working directory, and nothing else. -/
def FileTree.ofSettings (text : List Char) : FileTree where
  root := .dir .full
    [((Path.ofString Command.configName).bytes, .file .full (Text.Utf8.encode text))]
  cwd := []

theorem Command.startsFrom_ofSettings {text : List Char} {config : Config}
    (h : Config.Spells text config) :
    StartsFrom (.ofSettings text) none config ∧ ¬ Unreadable (.ofSettings text) none := by
  have hfile : settingsFile? (.ofSettings text) none = some (.ofString configName) := by
    rfl
  have htext : (FileTree.ofSettings text).readText (.ofString configName) = .ok text := by
    have hread : (FileTree.ofSettings text).read (.ofString configName) =
        .ok (Text.Utf8.encode text) := by
      rfl
    rw [FileTree.readText, hread]
    simp [Except.bind, FileTree.decodeContent]
  refine ⟨.inr ⟨_, text, hfile, htext, h⟩, ?_⟩
  rintro ⟨file, fault, hfile', hfault⟩
  cases hfile.symm.trans hfile'
  rw [htext] at hfault
  cases hfault

/-- Settings with an exclude glob that can be read and that no set can have. -/
def Config.ofDeepGlob : Config where
  check := { roots := [.ofString "."], exclude := [Glob.nestedPattern Glob.maxHeight] }

/-- The text of these settings. -/
def Config.deepGlobText : List Char :=
  "[doccheck]\nversion = \"1\"\nroots = [\".\"]\nexclude = [\"".toList ++
    Glob.nestedChars Glob.maxHeight "\"]\n".toList

/-- Validation tries each glob by itself, so it lets this one pass. -/
theorem Config.ofDeepGlob_isValid : Config.ofDeepGlob.IsValid ∧ ¬ Config.ofDeepGlob.MakesSet := by
  have hparse := Glob.parse_nested .wholePath Glob.maxHeight
  refine ⟨Config.isValid_iff.mpr
    ⟨rfl, by decide, by decide, by decide, by decide, by decide, ?_⟩, ?_⟩
  · intro pattern hpattern
    obtain rfl := List.mem_singleton.mp hpattern
    exact ⟨_, hparse⟩
  · rintro ⟨globs, hglobs, hset⟩
    have hmapM : Config.ofDeepGlob.check.exclude.mapM (Glob.parse .wholePath) =
        .ok [⟨Glob.nestedPattern Glob.maxHeight, .wholePath, [Glob.nestedToken Glob.maxHeight]⟩] := by
      rw [ofDeepGlob, List.mapM_cons, hparse]
      rfl
    cases hmapM.symm.trans hglobs
    rw [Glob.setError?_nested (Nat.le_refl _)] at hset
    cases hset

/-- Readable and valid settings and roots that are all there are not enough for a report. -/
theorem Command.run_fails_on_deep_glob :
    let tree := FileTree.ofSettings Config.deepGlobText
    tree.WellFormed ∧
    (run {} tree ⟨.check [] none none false, none⟩ .unlimited .unlimited).exitCode = 2 ∧
    ¬ Unreadable tree none ∧
    StartsFrom tree none .ofDeepGlob ∧ Config.ofDeepGlob.IsValid ∧
    ∀ root ∈ rootsOf .ofDeepGlob [], tree.isDir root = true := by
  have hspells : Config.Spells Config.deepGlobText .ofDeepGlob := by
    decide +kernel
  obtain ⟨hstarts, hreadable⟩ := startsFrom_ofSettings hspells
  obtain ⟨hvalid, hset⟩ := Config.ofDeepGlob_isValid
  refine ⟨by decide, ?_, hreadable, hstarts, hvalid, by decide⟩
  exact (run_of_fails none false none (.noSet hstarts hvalid hset)).1

end DocLint
