-- SUMMARY: A run of the program on a file tree: which settings count, what is written where, and the exit code.
import DocLint.Command.Args
import DocLint.Command.Check
import DocLint.Command.Init
import DocLint.Config.Load

/-! # Running the program

The exit code is 0 if all is well, 1 if there are defects, 2 for most errors and 3
for a settings file that is not one. A run that cannot write its last line breaks off
with a code of its own.
-/

namespace DocLint.Command

/-- What a run leaves behind. -/
structure Outcome where
  exitCode : Nat
  tree : FileTree
  out : Sink
  err : Sink

-- ---------------------------------------------------------------------------
-- The machine
-- ---------------------------------------------------------------------------

/-- What a run finds on the machine that it is on, apart from the file tree. -/
structure Host where
  outIsTerminal : Bool := false
  errIsTerminal : Bool := false
  /-- The kind of terminal, if the environment names one. -/
  terminal : Option Bytes := none
  /-- The environment asks for no colour. -/
  noColour : Bool := false
  /-- What is written before the message of a run that breaks off: what broke off, and where. -/
  crashOpening : String := ""
  /-- What is written after it: the calls that led there, or how to get to see them. -/
  crashClosing : String := ""
  deriving DecidableEq, Repr

namespace Host

/-- The kind of terminal that can show nothing but text. -/
def dumb : Bytes := Text.Utf8.encode "dumb".toList

/-- A terminal with colour is to be expected. -/
def allowsColour (host : Host) : Bool :=
  host.terminal.any (· ≠ dumb) && !host.noColour

/-- There is colour in an output. If it is not chosen or ruled out, it takes a terminal. -/
def hasColour (host : Host) (choice : ColourChoice) (isTerminal : Bool) : Bool :=
  match choice with
  | .always => true
  | .never => false
  | .auto => isTerminal && host.allowsColour

def colouring (host : Host) (choice : ColourChoice) : Colouring where
  out := host.hasColour choice host.outIsTerminal
  err := host.hasColour choice host.errIsTerminal

end Host

-- ---------------------------------------------------------------------------
-- Settings
-- ---------------------------------------------------------------------------

/-- The settings from the file that is named, else from the usual file if there is one,
    else the defaults. -/
def loadConfig (tree : FileTree) (named : Option Path) : Except Config.Error Config :=
  match named with
  | some path => Config.load tree path
  | none =>
    let usual := Path.ofString configName
    if tree.exists? usual then Config.load tree usual else .ok .default

/-- The settings of a check, with what the command line says. -/
def prepare (tree : FileTree) (named : Option Path) (overrides : Config.Overrides) :
    Except Config.Error Config := do
  (← loadConfig tree named).apply overrides

-- ---------------------------------------------------------------------------
-- Last lines
-- ---------------------------------------------------------------------------

def errorLine (message : String) : String :=
  "Error: " ++ message ++ "\n"

/-- The exit code of a run that breaks off because its last line cannot be written. -/
def brokenOff : Nat := 101

/-- What is said about a run whose last line was refused by the sink of the given name. -/
def crashText (host : Host) (name reason : String) : String :=
  host.crashOpening ++ "failed printing to " ++ name ++ ": " ++ reason ++ "\n" ++ host.crashClosing

/-- Ends a run whose last line was refused. It is tried to say so on `err`, and nothing comes
    of it if that is refused too. -/
def breakOff (host : Host) (tree : FileTree) (out err : Sink) (name reason : String) : Outcome :=
  ⟨brokenOff, tree, out, (err.write (crashText host name reason)).1⟩

/-- Ends a run with the line of an error. -/
def endWithError (host : Host) (code : Nat) (tree : FileTree) (out err : Sink)
    (message : String) : Outcome :=
  match err.write (errorLine message) with
  | (err, true) => ⟨code, tree, out, err⟩
  | (err, false) => breakOff host tree out err "stderr" err.refusal

-- ---------------------------------------------------------------------------
-- The two commands
-- ---------------------------------------------------------------------------

/-- Ends a check by what it has come to. -/
def endCheck (host : Host) (tree : FileTree) (coloured : Bool) (r : CheckResult) : Outcome :=
  match r.result with
  | .ok report => ⟨if report.passed then 0 else 1, tree, r.out, r.err⟩
  | .error (.walk (.rootNotFound root)) =>
    match r.err.writeAll (render coloured (Human.missingRoot root)) with
    | (err, true) => ⟨2, tree, r.out, err⟩
    | (err, false) => endWithError host 2 tree r.out err err.refusal
  | .error e => endWithError host 2 tree r.out r.err e.message

def runCheck (host : Host) (tree : FileTree) (named : Option Path)
    (overrides : Config.Overrides) (verbose : Bool) (out err : Sink) : Outcome :=
  match prepare tree named overrides with
  | .error e => endWithError host (if e.isParse then 3 else 2) tree out err e.message
  | .ok config =>
    let colour := host.colouring config.output.colour
    endCheck host tree colour.err (execute tree config verbose colour out err)

/-- What is said about the settings file. -/
def initLine : InitOutcome → String
  | .created => "Created " ++ configName ++ ".\n"
  | .overwritten => "Overwrote " ++ configName ++ ".\n"
  | .skipped => configName ++ " already exists. Use --force to overwrite it.\n"

def runInit (host : Host) (tree : FileTree) (force : Bool) (out err : Sink) : Outcome :=
  let attempt := init tree (.ofString ".") force
  match attempt.result with
  | .error fault => endWithError host 2 attempt.tree out err (initMessage fault)
  | .ok outcome =>
    match out.write (initLine outcome) with
    | (out, true) => ⟨0, attempt.tree, out, err⟩
    | (out, false) => breakOff host attempt.tree out err "stdout" out.refusal

/-- Runs the program as a command line asks. -/
def run (host : Host) (tree : FileTree) (invocation : Invocation) (out err : Sink) : Outcome :=
  match invocation.action with
  | .check paths named format verbose =>
    runCheck host tree named ⟨paths.map .ofString, format, invocation.colour⟩ verbose out err
  | .init force => runInit host tree force out err

end DocLint.Command
