-- SUMMARY: How a run ends, whatever its sinks refuse: with the code of what it has come to, or by breaking off at its last line.
import DocLint.Command.Run
import DocLint.Proofs.Refusals

/-! # How runs end

A sink that refuses a part of the report makes a check fail, and the check still has a line to say
so. Nothing is left to say once that line is refused too, and then the run breaks off. A run that
writes the first settings file has only its last line for `out`, so it breaks off at once.
-/

namespace DocLint.Command

/-! ## Ends with an error -/

/-- A run has ended with an error: `out` was asked for nothing more, and the code is that of the
    error unless `err` has refused to take it. -/
structure EndsWithError (code : Nat) (out : Sink) (r : Outcome) : Prop where
  out_eq : r.out = out
  exitCode_cases : r.exitCode = code ∨ r.exitCode = brokenOff ∧ r.err.hasRefused = true

/-- The line of an error leaves `out` alone, and if `err` refuses it, the run breaks off. -/
theorem endsWithError (host : Host) (code : Nat) (tree : FileTree) (out err : Sink)
    (message : String) : EndsWithError code out (endWithError host code tree out err message) := by
  have hrefused := err.write_hasRefused (errorLine message)
  rcases hwrite : err.write (errorLine message) with ⟨next, ok⟩
  rw [hwrite] at hrefused
  simp only [endWithError, hwrite]
  cases ok with
  | true => exact ⟨rfl, .inl rfl⟩
  | false =>
    have hnext : next.hasRefused = true := by simpa using hrefused
    exact ⟨rfl, .inr ⟨rfl, Sink.write_hasRefused_of_refused hnext _⟩⟩

theorem endWithError_of_takesAll (host : Host) (code : Nat) (tree : FileTree) (out : Sink)
    {err : Sink} (herr : err.TakesAll) (message : String) :
    (endWithError host code tree out err message).exitCode = code := by
  have hok := herr.write (errorLine message)
  rcases hwrite : err.write (errorLine message) with ⟨next, ok⟩
  obtain rfl : ok = true := by simpa [hwrite] using hok
  simp only [endWithError, hwrite]

theorem endCheck_of_ok {r : CheckResult} {report : Report} (h : r.result = .ok report)
    (host : Host) (tree : FileTree) (coloured : Bool) :
    endCheck host tree coloured r = ⟨if report.passed then 0 else 1, tree, r.out, r.err⟩ := by
  simp only [endCheck, h]

/-- A check that has failed says so on `err` only. -/
theorem endCheck_of_error {r : CheckResult} {e : CheckError} (h : r.result = .error e)
    (host : Host) (tree : FileTree) (coloured : Bool) :
    EndsWithError 2 r.out (endCheck host tree coloured r) := by
  unfold endCheck
  rw [h]
  split
  · rename_i heq
    cases heq
  · split
    · exact ⟨rfl, .inl rfl⟩
    · exact endsWithError ..
  · exact endsWithError ..

theorem endCheck_of_takesAll {r : CheckResult} {e : CheckError} (h : r.result = .error e)
    (herr : r.err.TakesAll) (host : Host) (tree : FileTree) (coloured : Bool) :
    (endCheck host tree coloured r).exitCode = 2 := by
  unfold endCheck
  rw [h]
  split
  · rename_i heq
    cases heq
  · rename_i root _
    have hok := herr.writeAll (render coloured (Human.missingRoot root))
    rcases hwrite : r.err.writeAll (render coloured (Human.missingRoot root)) with ⟨next, ok⟩
    obtain rfl : ok = true := by simpa [hwrite] using hok
    rfl
  · exact endWithError_of_takesAll _ _ _ _ herr _

/-- Whatever a check has come to, its end adds nothing to `out`. -/
theorem endCheck_out (host : Host) (tree : FileTree) (coloured : Bool) (r : CheckResult) :
    (endCheck host tree coloured r).out = r.out := by
  cases h : r.result with
  | ok report => rw [endCheck_of_ok h]
  | error e => exact (endCheck_of_error h host tree coloured).out_eq

/-! ## What there is to write -/

/-- A check that has walked has something to write, whatever it has found. -/
theorem bytesOf_outPieces_ne_nil (config : Config) (coloured : Bool) (events : List Event)
    (report : Report) : Sink.bytesOf (outPieces config coloured events report) ≠ [] := by
  have hend : Sink.newline ∈ Text.Utf8.encode "\n".toList := by decide
  have hsummary : ∃ piece ∈ summaryPieces config coloured report,
      Sink.newline ∈ Text.Utf8.encode piece.toList := by
    unfold summaryPieces
    split
    · refine ⟨"\n", List.mem_map.mpr ⟨.text "\n", ?_, rfl⟩, hend⟩
      unfold Human.summary
      split <;> simp
    · refine ⟨_, List.mem_singleton_self _, ?_⟩
      rw [Jsonl.line, String.toList_append, Text.Utf8.encode_append]
      exact List.mem_append_right _ hend
  obtain ⟨piece, hpiece, hnewline⟩ := hsummary
  exact List.ne_nil_of_mem (List.mem_flatMap.mpr ⟨piece, List.mem_append_right _ hpiece, hnewline⟩)

theorem bytesOf_initLine_ne_nil (outcome : InitOutcome) : Sink.bytesOf [initLine outcome] ≠ [] := by
  cases outcome <;> decide

/-! ## What the exit code tells -/

/-- What the exit code tells of a run that has `text` for `out`. -/
structure Accounts (text : Bytes) (r : Outcome) : Prop where
  exitCode_cases : r.exitCode ∈ [0, 1, 2, 3] ∨ r.exitCode = brokenOff
  /-- A run that says that it is done has written all it has, and that is something. -/
  done : r.exitCode = 0 ∨ r.exitCode = 1 →
    r.out.hasRefused = false ∧ r.out.bytes = text ∧ r.out.bytes ≠ []

/-- A run that ends with an error does not say that it has written everything. -/
theorem EndsWithError.accounts {code : Nat} {out : Sink} {r : Outcome}
    (h : EndsWithError code out r) (hcode : code = 2 ∨ code = 3) (text : Bytes) :
    Accounts text r ∧ (r.exitCode = brokenOff → r.err.hasRefused = true) := by
  rcases h.exitCode_cases with heq | ⟨heq, hrefused⟩
  · rcases hcode with rfl | rfl <;>
      exact ⟨⟨.inl (by simp [heq]), by simp [heq]⟩, by simp [heq, brokenOff]⟩
  · exact ⟨⟨.inr heq, by simp [heq, brokenOff]⟩, fun _ => hrefused⟩

/-- Both ways a check can go, with a report or without, write without gaps. -/
theorem gapless_execute (tree : FileTree) (config : Config) (verbose : Bool)
    (colour : Colouring) {out err : Sink} (hout : out.log = []) (herr : err.log = []) :
    Gapless (execute tree config verbose colour .unlimited .unlimited) out err
      (execute tree config verbose colour out err) := by
  cases hwalk : walked tree config with
  | error e => exact gapless_of_walk_failed hwalk verbose colour hout herr
  | ok found => exact gapless_of_walked hwalk verbose colour hout herr

section Fresh

variable {out err : Sink} (hout : out.log = []) (herr : err.log = [])
include hout herr

/-- A check that has a report has written all of it. -/
theorem execute_of_ok {tree : FileTree} {config : Config} {verbose : Bool} {colour : Colouring}
    {report : Report} (h : (execute tree config verbose colour out err).result = .ok report) :
    let r := execute tree config verbose colour out err
    r.out.hasRefused = false ∧
      r.out.bytes = (execute tree config verbose colour .unlimited .unlimited).out.bytes ∧
      r.out.bytes ≠ [] := by
  intro r
  have hgapless := gapless_execute tree config verbose colour hout herr
  have houtTaken : r.out.hasRefused = false := by
    rw [← Bool.not_eq_true]
    intro hrefused
    cases h.symm.trans (hgapless.out_refused hrefused).1
  have herrTaken : r.err.hasRefused = false := by
    rw [← Bool.not_eq_true]
    intro hrefused
    cases h.symm.trans (hgapless.err_refused hrefused).2.2.2
  have hbytes := (hgapless.complete houtTaken herrTaken).1
  refine ⟨houtTaken, hbytes, ?_⟩
  cases hwalk : walked tree config with
  | error e =>
    rw [execute_eq_of_walk_failed hwalk] at h
    cases h
  | ok found =>
    rw [hbytes, (execute_unlimited hwalk verbose colour).2.1]
    apply bytesOf_outPieces_ne_nil

/-- A check breaks off only if `err` refuses its last line. -/
theorem runCheck_accounts (host : Host) (tree : FileTree) (named : Option Path)
    (overrides : Config.Overrides) (verbose : Bool) :
    let r := runCheck host tree named overrides verbose out err
    Accounts (runCheck host tree named overrides verbose .unlimited .unlimited).out.bytes r ∧
      (r.exitCode = brokenOff → r.err.hasRefused = true) := by
  unfold runCheck
  cases prepare tree named overrides with
  | error e =>
    apply EndsWithError.accounts (endsWithError ..)
    cases e.isParse <;> simp
  | ok config =>
    simp only [endCheck_out]
    generalize host.colouring config.output.colour = colour
    cases hresult : (execute tree config verbose colour out err).result with
    | error e => exact (endCheck_of_error hresult host tree colour.err).accounts (.inl rfl) _
    | ok report =>
      rw [endCheck_of_ok hresult]
      have hdone := execute_of_ok hout herr hresult
      cases report.passed <;>
        exact ⟨⟨.inl (by simp), fun _ => hdone⟩, by simp [brokenOff]⟩

omit herr in
/-- The first settings file has one line for `out`, and the run breaks off if that is refused. -/
theorem runInit_accounts (host : Host) (tree : FileTree) (force : Bool) :
    let r := runInit host tree force out err
    Accounts (runInit host tree force .unlimited .unlimited).out.bytes r ∧
      (r.err.hasRefused = false → (r.exitCode = brokenOff ↔ r.out.hasRefused = true)) := by
  cases hresult : (init tree (.ofString ".") force).result with
  | error fault =>
    simp only [runInit, hresult]
    have hends := endsWithError host 2 (init tree (.ofString ".") force).tree out err
      (initMessage fault)
    obtain ⟨haccounts, hbroken⟩ := hends.accounts (.inl rfl) _
    refine ⟨haccounts, fun hkept => iff_of_false ?_ ?_⟩
    · intro hcode
      cases hkept.symm.trans (hbroken hcode)
    · simp [hends.out_eq, Sink.hasRefused, hout]
  | ok outcome =>
    -- the line is all there is, so writing it is writing everything
    have hline := Sink.writeAll_of_new hout [initLine outcome]
    have hfull := Sink.writeAll_of_new (show Sink.unlimited.log = [] from rfl) [initLine outcome]
    have hfullOk := Sink.takesAll_unlimited.write (initLine outcome)
    rw [Sink.writeAll_singleton] at hline hfull
    rcases hwrite : out.write (initLine outcome) with ⟨next, ok⟩
    rcases hfullWrite : Sink.unlimited.write (initLine outcome) with ⟨fullNext, fullOk⟩
    simp only [hwrite, hfullWrite] at hline hfull hfullOk
    simp only [runInit, hresult, hwrite, hfullWrite]
    obtain rfl := hfullOk
    cases ok with
    | true =>
      have hbytes := hline.2.2 rfl
      refine ⟨⟨.inl (by simp), fun _ => ⟨by simpa using hline.1, ?_, ?_⟩⟩, fun _ => ?_⟩
      · exact hbytes.trans (hfull.2.2 rfl).symm
      · rw [hbytes]
        exact bytesOf_initLine_ne_nil outcome
      · simp [hline.1, brokenOff]
    | false =>
      exact ⟨⟨.inr rfl, by simp [breakOff, brokenOff]⟩, fun _ => by simp [breakOff, hline.1]⟩

end Fresh

/-- How a run ends with sinks that refuse whatever they like. The code is one of the four that say
    what the run has come to, unless it breaks off. If it says that all is well or that there are
    defects, everything for `out` has been written. As long as `err` refuses nothing, it is the
    writing of the first settings file that breaks off, and it does so exactly if `out` refuses
    its line. -/
theorem run_ends (host : Host) (tree : FileTree) (invocation : Invocation)
    (outRoom errRoom : List Sink.Request → Bytes → Nat) (outReason errReason : String) :
    let full := run host tree invocation .unlimited .unlimited
    let r := run host tree invocation { room := outRoom, refusal := outReason }
      { room := errRoom, refusal := errReason }
    (r.exitCode ∈ [0, 1, 2, 3] ∨ r.exitCode = brokenOff) ∧
    (r.exitCode = 0 ∨ r.exitCode = 1 →
      r.out.hasRefused = false ∧ r.out.bytes = full.out.bytes ∧ r.out.bytes ≠ []) ∧
    (r.err.hasRefused = false → (r.exitCode = brokenOff ↔
      (∃ force, invocation.action = .init force) ∧ r.out.hasRefused = true)) := by
  obtain ⟨action, colour⟩ := invocation
  intro full r
  cases action with
  | check paths named format verbose =>
    have hends : Accounts full.out.bytes r ∧ (r.exitCode = brokenOff → r.err.hasRefused = true) :=
      runCheck_accounts rfl rfl ..
    obtain ⟨haccounts, hbroken⟩ := hends
    refine ⟨haccounts.exitCode_cases, haccounts.done, fun hkept => iff_of_false ?_ ?_⟩
    · intro hcode
      cases hkept.symm.trans (hbroken hcode)
    · rintro ⟨⟨force, hinit⟩, _⟩
      cases hinit
  | init force =>
    have hends : Accounts full.out.bytes r ∧
        (r.err.hasRefused = false → (r.exitCode = brokenOff ↔ r.out.hasRefused = true)) :=
      runInit_accounts rfl ..
    obtain ⟨haccounts, hbroken⟩ := hends
    refine ⟨haccounts.exitCode_cases, haccounts.done, fun hkept => ?_⟩
    rw [and_iff_right ⟨force, rfl⟩]
    exact hbroken hkept

/-- In an empty directory the settings file is written, and then the run breaks off because
    `out` takes nothing. -/
theorem run_init_breaks_off :
    let r := run {} ⟨.emptyDir, []⟩ ⟨.init false, none⟩
      (.closed "No space left on device (os error 28)") .unlimited
    Invocation.parse ["init"] = .ok ⟨.init false, none⟩ ∧
    r.tree.exists? (configPath (.ofString ".")) = true ∧
    r.exitCode = 101 ∧ r.exitCode ∉ [0, 1, 2, 3] ∧
    r.err.taken = "failed printing to stdout: No space left on device (os error 28)\n" := by
  exact ⟨by rfl, by decide, by decide, by decide, by decide⟩

end DocLint.Command
