-- SUMMARY: Settings that were accepted once stay usable: no override spoils them, and a walk with them fails only for its roots.
import DocLint.Proofs.Refusals
import DocLint.Proofs.Settings
import Mathlib

/-! # Overrides

Settings are judged three times: when they are read, after each override, and once more when
their globs are made a set for the walk. What the first judgement lets through passes the second
one however often it is made. Overrides leave the globs alone, so the third one is about the
settings as they were read.
-/

namespace DocLint

/-! ## The last value that is given -/

/-- Going through what is given and keeping the latest is the same as looking for the last. -/
theorem getLastD_filterMap_cons {α β : Type} (given : α → Option β) (a : α) (rest : List α)
    (start : β) :
    ((a :: rest).filterMap given).getLastD start =
      (rest.filterMap given).getLastD ((given a).getD start) := by
  cases h : given a with
  | none => rw [List.filterMap_cons_none h, Option.getD_none]
  | some b => rw [List.filterMap_cons_some h, List.getLastD_cons, Option.getD_some]

namespace Config

/-- The roots that an override gives, if it gives any. -/
def Overrides.roots? (o : Overrides) : Option (List Path) :=
  if o.roots.isEmpty then none else some o.roots

/-- The settings after overrides, one after another, as long as they are valid after each. -/
def applyAll (config : Config) (steps : List Overrides) : Except Error Config :=
  steps.foldlM apply config

/-- The settings with the last roots, format and colour that are given, and all else as it was. -/
def withLast (config : Config) (steps : List Overrides) : Config where
  check :=
    { config.check with roots := (steps.filterMap Overrides.roots?).getLastD config.check.roots }
  output :=
    { format := (steps.filterMap Overrides.format).getLastD config.output.format
      colour := (steps.filterMap Overrides.colour).getLastD config.output.colour }

theorem withLast_cons (config : Config) (o : Overrides) (rest : List Overrides) :
    config.withLast (o :: rest) = (config.override o).withLast rest := by
  have hroots : (o.roots?).getD config.check.roots = (config.override o).check.roots := by
    unfold Overrides.roots? Config.override
    split <;> simp [*]
  unfold withLast
  simp only [getLastD_filterMap_cons, hroots]
  rfl

variable {config : Config}

/-! ## Staying valid -/

/-- Valid settings stay valid under any override, so applying one cannot fail. -/
theorem IsValid.apply (h : config.IsValid) (o : Overrides) :
    config.apply o = .ok (config.override o) :=
  (h.override o).validate

/-- No override of valid settings fails, and what is left in the end is the last of each value. -/
theorem IsValid.applyAll (h : config.IsValid) (steps : List Overrides) :
    config.applyAll steps = .ok (config.withLast steps) ∧ (config.withLast steps).IsValid := by
  induction steps generalizing config with
  | nil => exact ⟨rfl, h⟩
  | cons o rest ih =>
    obtain ⟨happly, hvalid⟩ := ih (h.override o)
    rw [withLast_cons]
    refine ⟨?_, hvalid⟩
    rw [Config.applyAll, List.foldlM_cons, h.apply]
    exact happly

theorem isValid_of_parse {text : List Char} (h : parse text = .ok config) : config.IsValid := by
  by_cases hspells : ∃ config, Spells text config
  · obtain ⟨spelt, hspells⟩ := hspells
    rw [parse_of_spells hspells] at h
    unfold Config.validate at h
    split at h
    · rename_i hnone
      cases h
      exact hnone
    · cases h
  · obtain ⟨e, hparse, _⟩ := parse_of_not_spells (not_exists.mp hspells)
    rw [hparse] at h
    cases h

/-! ## The walker -/

/-- If each of the exclude patterns is a glob, the globs can be in one set. -/
def GlobsCombine (config : Config) : Prop :=
  ∀ globs, config.check.exclude.mapM (Glob.parse .wholePath) = .ok globs →
    Glob.setError? globs = none

theorem withLast_walker (config : Config) (steps : List Overrides) :
    (config.withLast steps).walker = config.walker := rfl

/-- If the globs of valid settings combine, there is a walker for them. -/
theorem IsValid.makesSet (h : config.IsValid) (hglobs : config.GlobsCombine) :
    config.MakesSet := by
  obtain ⟨_, _, _, _, _, _, hpatterns⟩ := isValid_iff.mp h
  obtain ⟨globs, hparse⟩ := exists_mapM_parse hpatterns
  exact ⟨globs, hparse, hglobs globs hparse⟩

/-- For valid settings there is only one thing that can keep them from having a walker. -/
theorem IsValid.walker_eq_error (h : config.IsValid) {e : WalkError}
    (hwalker : config.walker = .error e) : ∃ error, e = .invalidSet error := by
  by_cases hset : config.MakesSet
  · obtain ⟨w, hw, _⟩ := hset.walker
    rw [hw] at hwalker
    cases hwalker
  · obtain ⟨error, hw⟩ := h.walker_of_no_set hset
    rw [hw] at hwalker
    exact ⟨error, (Except.error.inj hwalker).symm⟩

end Config

/-- With a walker and with sinks that take everything, a check fails only for a missing root. -/
theorem Command.execute_eq_error {tree : FileTree} {config : Config} {w : Walker}
    (hw : config.walker = .ok w) {verbose : Bool} {colour : Colouring} {out err : Sink}
    (hout : out.TakesAll) (herr : err.TakesAll) {e : CheckError}
    (h : (execute tree config verbose colour out err).result = .error e) :
    ∃ root, Walker.FirstMissing tree config.check.roots root ∧ e = .walk (.rootNotFound root) := by
  rcases w.tellRoots_cases tree config.check.roots with ⟨root, hroot, _⟩ | ⟨hroots, _⟩
  · rw [execute_eq_of_walk_failed (walked_of_firstMissing hw hroot)] at h
    exact ⟨root, hroot, (Except.error.inj h).symm⟩
  · rw [(execute_of_takesAll (walked_of_isDir hw hroots) verbose colour hout herr).1] at h
    cases h

/-- Settings that a text was accepted as stay usable. However often values are put in place of
    others, no step fails, and only the roots, the format and the colour are different in the end,
    each as it was given last. The settings are still valid and have a walker, if globs that are
    valid one by one can be in one set. Then a check fails only if a root is missing. -/
theorem Config.parse_applyAll_usable {text : List Char} {parsed : Config}
    (hparse : Config.parse text = .ok parsed) (steps : List Overrides) :
    ∃ config, parsed.applyAll steps = .ok config ∧
      config.check = { parsed.check with
        roots := (steps.filterMap Overrides.roots?).getLastD parsed.check.roots } ∧
      config.output.format = (steps.filterMap Overrides.format).getLastD parsed.output.format ∧
      config.output.colour = (steps.filterMap Overrides.colour).getLastD parsed.output.colour ∧
      config.IsValid ∧
      (∀ e, config.walker = .error e → ∃ error, e = .invalidSet error) ∧
      (parsed.GlobsCombine →
        (∃ w, config.walker = .ok w) ∧
        ∀ (tree : FileTree) (verbose : Bool) (colour : Colouring) (out err : Sink),
          out.TakesAll → err.TakesAll →
          ∀ e, (Command.execute tree config verbose colour out err).result = .error e →
            ∃ root, Walker.FirstMissing tree config.check.roots root ∧
              e = .walk (.rootNotFound root)) := by
  have hvalid := isValid_of_parse hparse
  obtain ⟨happly, hlast⟩ := hvalid.applyAll steps
  refine ⟨parsed.withLast steps, happly, rfl, rfl, rfl, hlast, fun e => hlast.walker_eq_error, ?_⟩
  intro hglobs
  obtain ⟨w, hw, _⟩ := (hvalid.makesSet hglobs).walker
  rw [← withLast_walker parsed steps] at hw
  exact ⟨⟨w, hw⟩, fun tree verbose colour out err hout herr e =>
    Command.execute_eq_error hw hout herr⟩

/-- A text with two exclude globs. -/
def Config.excludesText : List Char :=
  "[doccheck]\nversion = \"1\"\nexclude = [\"**/gen/**\", \"*.tmp\"]\n[output]\ncolor = \"never\"\n".toList

/-- The settings that it holds. -/
def Config.ofExcludes : Config where
  check := { exclude := ["**/gen/**", "*.tmp"] }
  output := { colour := .never }

theorem Config.globsCombine_ofExcludes : ofExcludes.GlobsCombine := by
  intro globs hglobs
  have hparse : ofExcludes.check.exclude.mapM (Glob.parse .wholePath) =
      .ok [⟨"**/gen/**", .wholePath,
          [.anywhere, .literal 'g', .literal 'e', .literal 'n', .inside]⟩,
        ⟨"*.tmp", .wholePath,
          [.many, .literal '.', .literal 't', .literal 'm', .literal 'p']⟩] := by
    cbv
  cases hparse.symm.trans hglobs
  decide

theorem Config.parse_applyAll_usable_ofExcludes :
    let steps : List Overrides :=
      [{ colour := some .always }, { roots := [.ofString "lib"], format := some .jsonl }, {}]
    Config.parse excludesText = .ok ofExcludes ∧ ofExcludes.GlobsCombine ∧
    ∃ config, ofExcludes.applyAll steps = .ok config ∧
      config.check = { ofExcludes.check with roots := [.ofString "lib"] } ∧
      config.output.format = .jsonl ∧ config.output.colour = .always ∧ config.IsValid ∧
      ∃ w, config.walker = .ok w := by
  intro steps
  have hparse : Config.parse excludesText = .ok ofExcludes := by
    decide +kernel
  obtain ⟨config, happly, hcheck, hformat, hcolour, hvalid, _, hwalker⟩ :=
    parse_applyAll_usable hparse steps
  exact ⟨hparse, globsCombine_ofExcludes, config, happly, hcheck, hformat, hcolour, hvalid,
    (hwalker globsCombine_ofExcludes).1⟩

end DocLint
