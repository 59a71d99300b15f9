-- SUMMARY: Where the settings of a check come from, which are valid, and when their exclude globs make a walker.
import DocLint.Command.Run
import DocLint.Proofs.Scan

/-! # Settings of a check

Settings come from a file or are the defaults. What can go wrong is of three kinds, one after
another: the file cannot be read, its text is no document of the right shape, or the values are
not valid. What the command line overrides cannot make valid settings invalid.
-/

namespace DocLint

namespace Config

variable {config : Config}

/-! ## Valid settings -/

theorem badGlob?_eq_none_iff {patterns : List String} :
    badGlob? patterns = none ↔
      ∀ pattern ∈ patterns, ∃ glob, Glob.parse .wholePath pattern = .ok glob := by
  rw [badGlob?, List.findSome?_eq_none_iff]
  refine forall_congr' fun pattern => forall_congr' fun _ => ?_
  cases Glob.parse .wholePath pattern <;> simp

/-- What valid settings have to satisfy, with nothing said about which fault comes first. -/
theorem isValid_iff :
    config.IsValid ↔
      config.check.version = "1" ∧ config.check.roots ≠ [] ∧
      (config.check.extensions ≠ [] ∧ ∀ e ∈ config.check.extensions, isExtension e = true) ∧
      (config.check.keywords ≠ [] ∧ ∀ k ∈ config.check.keywords, isKeyword k = true) ∧
      "" ∉ config.check.ignorePrefixes ∧ config.check.docMarker ≠ "" ∧
      ∀ pattern ∈ config.check.exclude, ∃ glob, Glob.parse .wholePath pattern = .ok glob := by
  have hall {p : String → Bool} {l : List String} :
      l.find? (!p ·) = none ↔ ∀ a ∈ l, p a = true := by
    simp [List.find?_eq_none]
  rw [← badGlob?_eq_none_iff, ← hall, ← hall]
  unfold IsValid invalid?
  constructor
  · intro h
    simp only at h
    repeat' split at h
    all_goals simp_all
  · rintro ⟨hversion, hroots, ⟨hne, hextensions⟩, ⟨hne', hkeywords⟩, hprefixes, hmarker, hglobs⟩
    simp [hversion, hroots, hne, hextensions, hne', hkeywords, hprefixes, hmarker, hglobs]

/-- The defaults pass their own check. -/
theorem isValid_default : Config.default.IsValid := by
  decide

/-- No override can make valid settings invalid. -/
theorem IsValid.override (h : config.IsValid) (o : Overrides) : (config.override o).IsValid := by
  rw [isValid_iff] at h ⊢
  obtain ⟨hversion, hroots, hrest⟩ := h
  refine ⟨hversion, ?_, hrest⟩
  unfold Config.override
  simp only
  split
  · exact hroots
  · simpa using ‹¬ o.roots.isEmpty = true›

theorem IsValid.spaceless (h : config.IsValid) : config.rules.Spaceless := by
  intro key hkey
  obtain ⟨_, _, _, ⟨_, hkeywords⟩, _⟩ := isValid_iff.mp h
  have hword := hkeywords key hkey
  simp only [isKeyword, Bool.and_eq_true] at hword
  simpa using hword.2

/-! ## The walker of valid settings -/

theorem exists_mapM_parse {patterns : List String}
    (h : ∀ pattern ∈ patterns, ∃ glob, Glob.parse .wholePath pattern = .ok glob) :
    ∃ globs, patterns.mapM (Glob.parse .wholePath) = .ok globs := by
  induction patterns with
  | nil => exact ⟨[], rfl⟩
  | cons pattern patterns ih =>
    obtain ⟨⟨glob, hglob⟩, hrest⟩ := List.forall_mem_cons.mp h
    obtain ⟨globs, hglobs⟩ := ih hrest
    refine ⟨glob :: globs, ?_⟩
    rw [List.mapM_cons, hglob, hglobs]
    rfl

/-- The exclude patterns are globs that can be in one set. -/
def MakesSet (config : Config) : Prop :=
  ∃ globs, config.check.exclude.mapM (Glob.parse .wholePath) = .ok globs ∧
    Glob.setError? globs = none

/-- If the globs make a set, there is a walker, and it has the rules of the settings. -/
theorem MakesSet.walker (h : config.MakesSet) :
    ∃ w, config.walker = .ok w ∧ w.rules = config.rules := by
  obtain ⟨globs, hglobs, hset⟩ := h
  refine ⟨⟨config.rules, globs, config.check.gitignore⟩, ?_, rfl⟩
  simp only [Config.walker, Walker.make, hglobs, hset]

/-- Each pattern of valid settings is a glob, and still they may make no set. -/
theorem IsValid.walker_of_no_set (hvalid : config.IsValid) (h : ¬ config.MakesSet) :
    ∃ e, config.walker = .error (.invalidSet e) := by
  obtain ⟨_, _, _, _, _, _, hpatterns⟩ := isValid_iff.mp hvalid
  obtain ⟨globs, hglobs⟩ := exists_mapM_parse hpatterns
  cases hset : Glob.setError? globs with
  | none => exact absurd ⟨globs, hglobs, hset⟩ h
  | some e =>
    refine ⟨e, ?_⟩
    simp only [Config.walker, Walker.make, hglobs, hset]

/-! ## Settings in a text -/

/-- The text is a document of the right shape, and these are its values. -/
def Spells (text : List Char) (config : Config) : Prop :=
  ∃ entries, Toml.parse? text = some entries ∧ ofToml entries = .ok config

instance (text : List Char) (config : Config) : Decidable (Spells text config) :=
  decidable_of_iff
    ((Toml.parse? text).bind (fun entries => (ofToml entries).toOption) = some config) <| by
      simp only [Spells, Option.bind_eq_some_iff]
      refine exists_congr fun entries => and_congr_right fun _ => ?_
      cases ofToml entries <;> simp [Except.toOption]

theorem Spells.unique {text : List Char} {config config' : Config} (h : Spells text config)
    (h' : Spells text config') : config = config' := by
  obtain ⟨entries, hentries, hconfig⟩ := h
  obtain ⟨entries', hentries', hconfig'⟩ := h'
  cases hentries.symm.trans hentries'
  cases hconfig.symm.trans hconfig'
  rfl

/-- Of a text that spells settings, only their values can be wrong. -/
theorem parse_of_spells {text : List Char} (h : Spells text config) :
    parse text = config.validate := by
  obtain ⟨entries, hentries, hconfig⟩ := h
  simp only [parse, hentries, hconfig]

/-- A text that spells no settings cannot be parsed. -/
theorem parse_of_not_spells {text : List Char} (h : ∀ config, ¬ Spells text config) :
    ∃ e, parse text = .error e ∧ e.isParse = true := by
  unfold parse
  cases hentries : Toml.parse? text with
  | none => exact ⟨.malformed, rfl, rfl⟩
  | some entries =>
    cases hconfig : ofToml entries with
    | error misfit => exact ⟨.shape misfit, by simp only [hconfig], rfl⟩
    | ok config => exact absurd ⟨entries, hentries, hconfig⟩ (h config)

theorem IsValid.validate (h : config.IsValid) : config.validate = .ok config := by
  unfold Config.validate
  rw [h]

theorem validate_of_invalid (h : ¬ config.IsValid) :
    ∃ e, config.validate = .error e ∧ e.isParse = false := by
  unfold Config.validate
  cases hinvalid : config.invalid? with
  | none => exact absurd hinvalid h
  | some reason => exact ⟨.invalid reason, rfl, rfl⟩

end Config

/-! ## Settings of a run -/

namespace Command

variable {tree : FileTree} {named : Option Path} {config : Config}

/-- The settings file that counts: the one that is named, else the usual one if there is one. -/
def settingsFile? (tree : FileTree) (named : Option Path) : Option Path :=
  match named with
  | some path => some path
  | none => if tree.exists? (.ofString configName) then some (.ofString configName) else none

/-- There is a settings file, and it cannot be read as text. -/
def Unreadable (tree : FileTree) (named : Option Path) : Prop :=
  ∃ file fault, settingsFile? tree named = some file ∧ tree.readText file = .error fault

/-- There is a settings file, and its text is no document of the right shape. -/
def Malformed (tree : FileTree) (named : Option Path) : Prop :=
  ∃ file text, settingsFile? tree named = some file ∧ tree.readText file = .ok text ∧
    ∀ config, ¬ Config.Spells text config

/-- The settings to start from: those of the file, or the defaults if there is none. -/
def StartsFrom (tree : FileTree) (named : Option Path) (config : Config) : Prop :=
  (settingsFile? tree named = none ∧ config = .default) ∨
    ∃ file text, settingsFile? tree named = some file ∧ tree.readText file = .ok text ∧
      Config.Spells text config

/-- A check starts from one configuration at most. -/
theorem StartsFrom.unique {config' : Config} (h : StartsFrom tree named config)
    (h' : StartsFrom tree named config') : config = config' := by
  rcases h with ⟨hnone, rfl⟩ | ⟨file, text, hfile, htext, hspells⟩
  · rcases h' with ⟨_, rfl⟩ | ⟨file, _, hfile, _⟩
    · rfl
    · rw [hnone] at hfile
      cases hfile
  · rcases h' with ⟨hnone, _⟩ | ⟨file', text', hfile', htext', hspells'⟩
    · rw [hnone] at hfile
      cases hfile
    · cases hfile.symm.trans hfile'
      cases htext.symm.trans htext'
      exact hspells.unique hspells'

/-- A settings file cannot be read, is not one, or says what a check starts from. -/
theorem settings_cases (tree : FileTree) (named : Option Path) :
    Unreadable tree named ∨ Malformed tree named ∨ ∃ config, StartsFrom tree named config := by
  cases hfile : settingsFile? tree named with
  | none => exact .inr (.inr ⟨.default, .inl ⟨hfile, rfl⟩⟩)
  | some file =>
    cases htext : tree.readText file with
    | error fault => exact .inl ⟨file, fault, hfile, htext⟩
    | ok text =>
      by_cases h : ∃ config, Config.Spells text config
      · obtain ⟨config, hspells⟩ := h
        exact .inr (.inr ⟨config, .inr ⟨file, text, hfile, htext, hspells⟩⟩)
      · exact .inr (.inl ⟨file, text, hfile, htext, not_exists.mp h⟩)

theorem loadConfig_of_file {file : Path} (h : settingsFile? tree named = some file) :
    loadConfig tree named = Config.load tree file := by
  unfold settingsFile? at h
  unfold loadConfig
  split at h
  · cases h
    rfl
  · split at h
    · rename_i hexists
      cases h
      exact if_pos hexists
    · cases h

theorem loadConfig_of_no_file (h : settingsFile? tree named = none) :
    loadConfig tree named = .ok .default := by
  unfold settingsFile? at h
  unfold loadConfig
  split at h
  · cases h
  · split at h
    · cases h
    · rename_i hexists
      exact if_neg hexists

theorem StartsFrom.loadConfig (h : StartsFrom tree named config) :
    loadConfig tree named = config.validate := by
  rcases h with ⟨hnone, rfl⟩ | ⟨file, text, hfile, htext, hspells⟩
  · rw [loadConfig_of_no_file hnone, Config.isValid_default.validate]
  · rw [loadConfig_of_file hfile, Config.load, htext]
    exact Config.parse_of_spells hspells

/-! ## Preparing -/

variable (overrides : Config.Overrides)

theorem prepare_of_loadConfig_failed {e : Config.Error} (h : loadConfig tree named = .error e) :
    prepare tree named overrides = .error e := by
  rw [prepare, h]
  rfl

theorem Unreadable.prepare (h : Unreadable tree named) :
    ∃ e, prepare tree named overrides = .error e ∧ e.isParse = false := by
  obtain ⟨file, fault, hfile, htext⟩ := h
  refine ⟨.io fault, prepare_of_loadConfig_failed overrides ?_, rfl⟩
  rw [loadConfig_of_file hfile, Config.load, htext]

theorem Malformed.prepare (h : Malformed tree named) :
    ∃ e, prepare tree named overrides = .error e ∧ e.isParse = true := by
  obtain ⟨file, text, hfile, htext, hspells⟩ := h
  obtain ⟨e, hparse, he⟩ := Config.parse_of_not_spells hspells
  refine ⟨e, prepare_of_loadConfig_failed overrides ?_, he⟩
  rw [loadConfig_of_file hfile, Config.load, htext]
  exact hparse

theorem StartsFrom.prepare_of_invalid (h : StartsFrom tree named config)
    (hinvalid : ¬ config.IsValid) :
    ∃ e, prepare tree named overrides = .error e ∧ e.isParse = false := by
  obtain ⟨e, hvalidate, he⟩ := Config.validate_of_invalid hinvalid
  exact ⟨e, prepare_of_loadConfig_failed overrides (h.loadConfig.trans hvalidate), he⟩

/-- Valid settings are taken over, with what the command line says. -/
theorem StartsFrom.prepare_of_valid (h : StartsFrom tree named config) (hvalid : config.IsValid) :
    prepare tree named overrides = .ok (config.override overrides) := by
  rw [prepare, h.loadConfig, hvalid.validate]
  exact (hvalid.override overrides).validate

end Command

end DocLint
