-- SUMMARY: What a check leaves in its two sinks, whatever they refuse: no gaps, and an error exactly if there was a refusal.
import DocLint.Command.Check
import DocLint.Proofs.Sinks
import DocLint.Proofs.Telling

/-! # Refusals

A check writes while it walks, and the walk does not stop at a refusal. It is shown that
the sinks are left as if everything had been written in a row up to the first refusal.
-/

namespace DocLint.Command

/-- Everything that a check has for `out`, in a row. -/
def outPieces (config : Config) (coloured : Bool) (events : List Event) (report : Report) :
    List String :=
  events.flatMap (eventPieces config coloured) ++ summaryPieces config coloured report

/-- Telling event by event is writing all their pieces in a row. -/
theorem tell_eq_writeAll (config : Config) (coloured : Bool) (out : Sink) (events : List Event) :
    tell config coloured out events =
      out.writeAll (events.flatMap (eventPieces config coloured)) :=
  Sink.foldl_writeOn (eventPieces config coloured) events out []

theorem walked_of_walker_failed {config : Config} {e : WalkError} (h : config.walker = .error e)
    (tree : FileTree) : walked tree config = .error e := by
  rw [walked, h]
  rfl

/-- A walk of roots that are all there has a report. -/
theorem walked_of_isDir {tree : FileTree} {config : Config} {w : Walker}
    (hw : config.walker = .ok w) (hroots : ∀ root ∈ config.check.roots, tree.isDir root = true) :
    walked tree config =
      .ok (config.check.roots.flatMap (w.toldOf tree), w.total tree config.check.roots) := by
  rw [walked, hw]
  exact Walker.walkRoots_eq_ok_iff.mpr (w.tellRoots_of_isDir hroots)

/-- A walk fails at the first root that is not there, before it tells of any. -/
theorem walked_of_firstMissing {tree : FileTree} {config : Config} {w : Walker}
    (hw : config.walker = .ok w) {root : Path}
    (hroot : Walker.FirstMissing tree config.check.roots root) :
    walked tree config = .error (.rootNotFound root) := by
  rw [walked, hw]
  exact Walker.walkRoots_eq_error_iff.mpr (w.tellRoots_of_firstMissing hroot)

theorem walked_eq_ok {tree : FileTree} {config : Config} {events : List Event} {report : Report}
    (h : walked tree config = .ok (events, report)) :
    ∃ w, config.walker = .ok w ∧
      w.tellRoots tree config.check.roots = ⟨events, .ok report⟩ := by
  rw [walked] at h
  cases hw : config.walker with
  | error e =>
    rw [hw] at h
    cases h
  | ok w =>
    rw [hw] at h
    exact ⟨w, rfl, Walker.walkRoots_eq_ok_iff.mp h⟩

/-- A walk that fails has told nothing. -/
theorem walked_eq_error {tree : FileTree} {config : Config} {e : WalkError}
    (h : walked tree config = .error e) :
    config.walker = .error e ∨
      ∃ w, config.walker = .ok w ∧ w.tellRoots tree config.check.roots = ⟨[], .error e⟩ := by
  rw [walked] at h
  cases hw : config.walker with
  | error e' =>
    rw [hw] at h
    cases h
    exact .inl rfl
  | ok w =>
    rw [hw] at h
    exact .inr ⟨w, rfl, Walker.walkRoots_eq_error_iff.mp h⟩

/-! ## A check that has walked -/

section Walked

variable {tree : FileTree} {config : Config} {events : List Event} {report : Report}

/-- A check writes all it has for `out` in a row, and then all it has for `err`. -/
theorem execute_eq (hwalk : walked tree config = .ok (events, report)) (verbose : Bool)
    (colour : Colouring) (out err : Sink) :
    execute tree config verbose colour out err =
      match out.writeAll (outPieces config colour.out events report) with
      | (out, false) => ⟨.error (.refused out.refusal), out, err⟩
      | (out, true) =>
        match err.writeAll (errPieces verbose colour.err report) with
        | (err, false) => ⟨.error (.refused err.refusal), out, err⟩
        | (err, true) => ⟨.ok report, out, err⟩ := by
  obtain ⟨w, hw, htell⟩ := walked_eq_ok hwalk
  simp only [execute, hw, htell, tell_eq_writeAll, outPieces, Sink.writeAll_append]
  rcases out.writeAll (events.flatMap (eventPieces config colour.out)) with ⟨next, ok⟩
  cases ok <;> rfl

/-- If `out` refuses, nothing is said on `err`. -/
theorem execute_eq_of_out_refused (hwalk : walked tree config = .ok (events, report))
    (verbose : Bool) (colour : Colouring) {out : Sink} (err : Sink)
    (hout : (out.writeAll (outPieces config colour.out events report)).2 = false) :
    execute tree config verbose colour out err =
      ⟨.error (.refused out.refusal), (out.writeAll (outPieces config colour.out events report)).1,
        err⟩ := by
  have hrefusal := (Sink.wrote_writeAll out (outPieces config colour.out events report)).refusal_eq
  rw [execute_eq hwalk, ← hrefusal]
  generalize out.writeAll (outPieces config colour.out events report) = written at hout ⊢
  obtain ⟨next, ok⟩ := written
  obtain rfl : ok = false := hout
  rfl

/-- Once `out` has taken everything, it is up to `err`. -/
theorem execute_eq_of_out_taken (hwalk : walked tree config = .ok (events, report))
    (verbose : Bool) (colour : Colouring) {out : Sink} (err : Sink)
    (hout : (out.writeAll (outPieces config colour.out events report)).2 = true) :
    execute tree config verbose colour out err =
      ⟨if (err.writeAll (errPieces verbose colour.err report)).2 then .ok report
          else .error (.refused err.refusal),
        (out.writeAll (outPieces config colour.out events report)).1,
        (err.writeAll (errPieces verbose colour.err report)).1⟩ := by
  have hrefusal := (Sink.wrote_writeAll err (errPieces verbose colour.err report)).refusal_eq
  rw [execute_eq hwalk, ← hrefusal]
  generalize out.writeAll (outPieces config colour.out events report) = written at hout ⊢
  obtain ⟨next, ok⟩ := written
  obtain rfl : ok = true := hout
  rcases err.writeAll (errPieces verbose colour.err report) with ⟨after, ok⟩
  cases ok <;> rfl

/-- `out` is left with what all that is meant for it leaves, whatever becomes of `err`. -/
theorem execute_out (hwalk : walked tree config = .ok (events, report)) (verbose : Bool)
    (colour : Colouring) (out err : Sink) :
    (execute tree config verbose colour out err).out =
      (out.writeAll (outPieces config colour.out events report)).1 := by
  cases hok : (out.writeAll (outPieces config colour.out events report)).2 with
  | false => rw [execute_eq_of_out_refused hwalk verbose colour err hok]
  | true => rw [execute_eq_of_out_taken hwalk verbose colour err hok]

/-- With sinks that take everything, all is written and the report is the result. -/
theorem execute_of_takesAll (hwalk : walked tree config = .ok (events, report))
    (verbose : Bool) (colour : Colouring) {out err : Sink} (hout : out.TakesAll)
    (herr : err.TakesAll) :
    let full := execute tree config verbose colour out err
    full.result = .ok report ∧
      full.out.bytes = out.bytes ++ Sink.bytesOf (outPieces config colour.out events report) ∧
      full.err.bytes = err.bytes ++ Sink.bytesOf (errPieces verbose colour.err report) := by
  have hout' := hout.writeAll (outPieces config colour.out events report)
  have herr' := herr.writeAll (errPieces verbose colour.err report)
  simp only [execute_eq_of_out_taken hwalk verbose colour err hout', herr', if_true,
    hout.writeAll_bytes, herr.writeAll_bytes, and_self]

theorem execute_unlimited (hwalk : walked tree config = .ok (events, report))
    (verbose : Bool) (colour : Colouring) :
    let full := execute tree config verbose colour .unlimited .unlimited
    full.result = .ok report ∧
      full.out.bytes = Sink.bytesOf (outPieces config colour.out events report) ∧
      full.err.bytes = Sink.bytesOf (errPieces verbose colour.err report) :=
  execute_of_takesAll hwalk verbose colour Sink.takesAll_unlimited Sink.takesAll_unlimited

end Walked

/-- Without a report nothing is written at all. -/
theorem execute_eq_of_walk_failed {tree : FileTree} {config : Config} {e : WalkError}
    (hwalk : walked tree config = .error e) (verbose : Bool) (colour : Colouring) (out err : Sink) :
    execute tree config verbose colour out err = ⟨.error (.walk e), out, err⟩ := by
  rcases walked_eq_error hwalk with hw | ⟨w, hw, htell⟩
  · simp only [execute, hw]
  · simp only [execute, hw, htell, tell, List.foldl_nil]

/-! ## Any sinks -/

/-- What a check leaves in sinks that were not written to before, compared with a run of
    the same check in which nothing is refused. -/
structure Gapless (full : CheckResult) (out err : Sink) (r : CheckResult) : Prop where
  /-- What `out` has taken is where a full run starts. -/
  out_prefix : r.out.bytes <+: full.out.bytes
  /-- Once `out` has refused something, `err` is not written to at all. -/
  out_refused : r.out.hasRefused = true → r.result = .error (.refused out.refusal) ∧ r.err.log = []
  /-- If it is `err` that refuses something, `out` is complete. -/
  err_refused : r.err.hasRefused = true → r.out.hasRefused = false ∧
    r.out.bytes = full.out.bytes ∧ r.err.bytes <+: full.err.bytes ∧
    r.result = .error (.refused err.refusal)
  /-- If nothing is refused, the run is a full one. -/
  complete : r.out.hasRefused = false → r.err.hasRefused = false →
    r.out.bytes = full.out.bytes ∧ r.err.bytes = full.err.bytes ∧ r.result = full.result

theorem gapless_of_walk_failed {tree : FileTree} {config : Config} {e : WalkError}
    (hwalk : walked tree config = .error e) (verbose : Bool) (colour : Colouring) {out err : Sink}
    (hout : out.log = []) (herr : err.log = []) :
    Gapless (execute tree config verbose colour .unlimited .unlimited) out err
      (execute tree config verbose colour out err) := by
  have hempty : ∀ {sink : Sink}, sink.log = [] → sink.bytes = [] ∧ sink.hasRefused = false := by
    intro sink hlog
    simp [Sink.bytes, Sink.hasRefused, hlog]
  have hnone : Sink.unlimited.bytes = [] := rfl
  simp only [execute_eq_of_walk_failed hwalk]
  constructor
  · simp [hempty hout]
  · simp [hempty hout]
  · simp [hempty herr]
  · simp [hempty hout, hempty herr, hnone]

/-- The pieces for `out` and then those for `err` are written until one is refused. -/
theorem gapless_of_walked {tree : FileTree} {config : Config} {events : List Event}
    {report : Report} (hwalk : walked tree config = .ok (events, report))
    (verbose : Bool) (colour : Colouring) {out err : Sink} (hout : out.log = [])
    (herr : err.log = []) :
    Gapless (execute tree config verbose colour .unlimited .unlimited) out err
      (execute tree config verbose colour out err) := by
  obtain ⟨hresult, hfullOut, hfullErr⟩ := execute_unlimited hwalk verbose colour
  obtain ⟨houtRefused, houtPrefix, houtAll⟩ :=
    Sink.writeAll_of_new hout (outPieces config colour.out events report)
  obtain ⟨herrRefused, herrPrefix, herrAll⟩ :=
    Sink.writeAll_of_new herr (errPieces verbose colour.err report)
  cases hok : (out.writeAll (outPieces config colour.out events report)).2 with
  | false =>
    rw [execute_eq_of_out_refused hwalk verbose colour err hok]
    rw [hok] at houtRefused
    constructor
    · rw [hfullOut]
      exact houtPrefix
    · exact fun _ => ⟨rfl, herr⟩
    · intro h
      exact absurd h (by simp [Sink.hasRefused, herr])
    · intro h
      exact absurd h (by simp [houtRefused])
  | true =>
    rw [execute_eq_of_out_taken hwalk verbose colour err hok]
    rw [hok] at houtRefused
    have hout := houtAll hok
    constructor
    · rw [hfullOut]
      exact houtPrefix
    · intro h
      exact absurd h (by simp [houtRefused])
    · intro h
      rw [herrRefused, Bool.not_eq_true'] at h
      refine ⟨houtRefused, by rw [hfullOut, hout], ?_, by simp [h]⟩
      rw [hfullErr]
      exact herrPrefix
    · intro _ h
      rw [herrRefused, Bool.not_eq_false'] at h
      exact ⟨by rw [hfullOut, hout], by rw [hfullErr, herrAll h], by simp [h, hresult]⟩

/-! ## Sinks for complete lines -/

/-- A sink for complete lines is left with the full output up to the end of a line,
    however the output is cut into pieces. -/
theorem execute_lines (tree : FileTree) (config : Config) (verbose : Bool) (colour : Colouring)
    (limit : Nat) (reason : String) (err : Sink) :
    Sink.CutAfterLine limit (execute tree config verbose colour .unlimited .unlimited).out.bytes
      (execute tree config verbose colour (.lines limit reason) err).out.bytes := by
  cases hwalk : walked tree config with
  | error e =>
    have hcut := Sink.cutAfterLine_take_lineRoom limit []
    rw [List.take_nil] at hcut
    rw [execute_eq_of_walk_failed hwalk, execute_eq_of_walk_failed hwalk]
    exact hcut
  | ok found =>
    obtain ⟨events, report⟩ := found
    rw [(execute_unlimited hwalk verbose colour).2.1, execute_out hwalk,
      Sink.lines_writeAll_bytes]
    exact Sink.cutAfterLine_take_lineRoom limit _

/-- A check leaves no gap in its output, whatever its sinks refuse and whenever. `out` is
    left with the start of what a run without refusals writes. `err` is written to only
    after all of that. The result is the error of the sink that refused, and a check that
    has walked has a report exactly if nothing was refused. -/
theorem execute_gapless (tree : FileTree) (config : Config) (verbose : Bool) (colour : Colouring)
    (outRoom errRoom : List Sink.Request → Bytes → Nat) (outReason errReason : String) :
    let full := execute tree config verbose colour .unlimited .unlimited
    let r := execute tree config verbose colour { room := outRoom, refusal := outReason }
      { room := errRoom, refusal := errReason }
    r.out.bytes <+: full.out.bytes ∧
    (r.out.hasRefused = true → r.result = .error (.refused outReason) ∧ r.err.log = []) ∧
    (r.err.hasRefused = true → r.out.hasRefused = false ∧ r.out.bytes = full.out.bytes ∧
      r.err.bytes <+: full.err.bytes ∧ r.result = .error (.refused errReason)) ∧
    (r.out.hasRefused = false → r.err.hasRefused = false →
      r.out.bytes = full.out.bytes ∧ r.err.bytes = full.err.bytes ∧ r.result = full.result) ∧
    ((∃ found, walked tree config = .ok found) →
      ((∃ report, r.result = .ok report) ↔ r.out.hasRefused = false ∧ r.err.hasRefused = false)) ∧
    ∀ (limit : Nat) (reason : String) (err : Sink), Sink.CutAfterLine limit full.out.bytes
      (execute tree config verbose colour (.lines limit reason) err).out.bytes := by
  intro full r
  have hgapless : Gapless full { room := outRoom, refusal := outReason }
      { room := errRoom, refusal := errReason } r := by
    cases hwalk : walked tree config with
    | error e => exact gapless_of_walk_failed hwalk verbose colour rfl rfl
    | ok found => exact gapless_of_walked hwalk verbose colour rfl rfl
  refine ⟨hgapless.out_prefix, hgapless.out_refused, hgapless.err_refused, hgapless.complete, ?_,
    execute_lines tree config verbose colour⟩
  rintro ⟨⟨events, report⟩, hwalk⟩
  constructor
  · rintro ⟨_, hok⟩
    rw [← Bool.not_eq_true, ← Bool.not_eq_true]
    constructor
    · intro h
      exact absurd (hok.symm.trans (hgapless.out_refused h).1) nofun
    · intro h
      exact absurd (hok.symm.trans (hgapless.err_refused h).2.2.2) nofun
  · rintro ⟨hout, herr⟩
    exact ⟨report, (hgapless.complete hout herr).2.2.trans
      (execute_unlimited hwalk verbose colour).1⟩

end DocLint.Command
