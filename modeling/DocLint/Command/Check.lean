-- SUMMARY: The check: walk the roots, write the report to one sink and what else there is to say to another.
import DocLint.Config.Basic
import DocLint.Output.Human
import DocLint.Output.Jsonl
import DocLint.Output.Sink
import DocLint.Walk.Roots

/-! # The check

The report goes to the sink `out`, warnings and details go to `err`. Nothing is
written before every root is known to be a directory. The first piece that a sink
refuses ends the writing, and `err` is asked for nothing once `out` has refused.
-/

namespace DocLint.Command

/-- Why a check fails. -/
inductive CheckError where
  | walk (error : WalkError)
  /-- A sink refused a piece, with the text of its error. -/
  | refused (reason : String)

def CheckError.message : CheckError → String
  | .walk error => error.message
  | .refused reason => "I/O error: " ++ reason

-- ---------------------------------------------------------------------------
-- What is written
-- ---------------------------------------------------------------------------

/-- How styled text is written, piece by piece. -/
def render (coloured : Bool) (pieces : List Piece) : List String :=
  pieces.map (Piece.render coloured)

/-- What the format for people has for an event. -/
def humanEvent : Event → List Piece
  | .rootStarted root => Human.rootHeader root
  | .defect d => Human.defect d

/-- What the format for programs has for an event. -/
def jsonlEvent : Event → List String
  | .rootStarted _ => []
  | .defect d => [Jsonl.line (Jsonl.defect d)]

/-- What the format of the settings has for an event. -/
def eventPieces (config : Config) (coloured : Bool) (event : Event) : List String :=
  match config.output.format with
  | .human => render coloured (humanEvent event)
  | .jsonl => jsonlEvent event

/-- What the format of the settings has at the end. -/
def summaryPieces (config : Config) (coloured : Bool) (report : Report) : List String :=
  match config.output.format with
  | .human => render coloured (Human.summary report.defectCount)
  | .jsonl => [Jsonl.line (Jsonl.summary config.check.roots report)]

def skippedLine (s : Skipped) : String :=
  "Skipped " ++ s.path.text ++ " (" ++ s.reason.text ++ ")\n"

/-- Everything that is written to `err`. -/
def errPieces (verbose coloured : Bool) (report : Report) : List String :=
  render coloured (report.warnings.flatMap Human.warning) ++
    if verbose then
      report.skipped.map skippedLine ++ ["Checked " ++ toString report.filesChecked.toNat ++ " files\n"]
    else []

-- ---------------------------------------------------------------------------
-- Running
-- ---------------------------------------------------------------------------

/-- The walk of a check: what it tells, and its report. -/
def walked (tree : FileTree) (config : Config) : Except WalkError (List Event × Report) :=
  config.walker >>= fun w => w.walkRoots tree config.check.roots

/-- Tells a sink of events. The walk goes on when the sink refuses something, but the sink
    is told of no further event. -/
def tell (config : Config) (coloured : Bool) (out : Sink) (events : List Event) : Sink × Bool :=
  events.foldl (fun written event => Sink.writeOn written (eventPieces config coloured event))
    (out, true)

/-- What a check leaves behind. -/
structure CheckResult where
  result : Except CheckError Report
  out : Sink
  err : Sink

def execute (tree : FileTree) (config : Config) (verbose : Bool) (colour : Colouring)
    (out err : Sink) : CheckResult :=
  match config.walker with
  | .error e => ⟨.error (.walk e), out, err⟩
  | .ok w =>
    let telling := w.tellRoots tree config.check.roots
    match telling.result, tell config colour.out out telling.events with
    | .error e, (out, _) => ⟨.error (.walk e), out, err⟩
    | .ok _, (out, false) => ⟨.error (.refused out.refusal), out, err⟩
    | .ok report, (out, true) =>
      match out.writeAll (summaryPieces config colour.out report) with
      | (out, false) => ⟨.error (.refused out.refusal), out, err⟩
      | (out, true) =>
        match err.writeAll (errPieces verbose colour.err report) with
        | (err, false) => ⟨.error (.refused err.refusal), out, err⟩
        | (err, true) => ⟨.ok report, out, err⟩

end DocLint.Command
