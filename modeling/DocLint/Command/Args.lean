-- SUMMARY: The command line: its two commands and their options, read word by word, and what can be wrong with it.
import DocLint.Config.Shape

/-! # Command line

Words are read from left to right on a level: the top level, where options for all
commands may stand, and then the level of the command that is named. An option that
takes a value may have it in the next word. Such a value is looked at only when the
next option, path or the end of the level comes, which decides what is reported of
two mistakes. The end of the top level comes after that of the command.

Words are text here. The path of the settings file is the one value that need not be, so
an action has it as a path.
-/

namespace DocLint.Command

/-- What the program is asked to do. -/
inductive Action where
  | check (paths : List String) (config : Option Path) (format : Option Format) (verbose : Bool)
  | init (force : Bool)
  deriving DecidableEq, Repr

/-- A command line that was understood. -/
structure Invocation where
  action : Action
  colour : Option ColourChoice
  deriving DecidableEq, Repr

/-- Why a command line leads to no action. -/
inductive Usage where
  /-- Help is asked for. -/
  | help
  /-- The version is asked for. -/
  | version
  | noArguments
  | noCommand
  | unknownCommand
  | unknownArgument
  /-- A value that is missing, empty or not among the choices. -/
  | badValue
  | repeated
  /-- A value for an option that takes none. -/
  | excessValue
  deriving DecidableEq, Repr

/-- The exit code when there is no action. -/
def Usage.exitCode : Usage → Nat
  | .help | .version => 0
  | _ => 2

-- ---------------------------------------------------------------------------
-- Options
-- ---------------------------------------------------------------------------

/-- Where options are read. -/
inductive Level where
  | top
  | check
  | init
  deriving DecidableEq, Repr

/-- The options. -/
inductive Opt where
  | colour
  | config
  | format
  | verbose
  | force
  | help
  | version
  deriving DecidableEq, Repr

def Opt.takesValue : Opt → Bool
  | .colour | .config | .format => true
  | .verbose | .force | .help | .version => false

/-- The option of a long name. -/
def Level.long? : Level → String → Option Opt
  | _, "color" => some .colour
  | _, "help" => some .help
  | .top, "version" => some .version
  | .check, "config" => some .config
  | .check, "format" => some .format
  | .check, "verbose" => some .verbose
  | .init, "force" => some .force
  | _, _ => none

/-- The option of a letter. -/
def Level.short? : Level → Char → Option Opt
  | _, 'h' => some .help
  | .top, 'V' => some .version
  | .check, 'c' => some .config
  | .check, 'f' => some .format
  | .check, 'v' => some .verbose
  | _, _ => none

-- ---------------------------------------------------------------------------
-- What has been read on a level
-- ---------------------------------------------------------------------------

/-- The values given on a level, and an option whose value is not settled: `none` if the
    value has not come yet. -/
structure Given where
  colour : Option ColourChoice := none
  config : Option Path := none
  format : Option Format := none
  verbose : Bool := false
  force : Bool := false
  paths : List String := []
  unsettled : Option (Opt × Option String) := none

namespace Given

def has (g : Given) : Opt → Bool
  | .colour => g.colour.isSome
  | .config => g.config.isSome
  | .format => g.format.isSome
  | .verbose => g.verbose
  | .force => g.force
  | .help | .version => false

def setValue (g : Given) (o : Opt) (value : String) : Except Usage Given :=
  if g.has o then .error .repeated
  else
    match o with
    | .colour =>
      match Config.colourChoices.lookup value with
      | some c => .ok { g with colour := some c }
      | none => .error .badValue
    | .format =>
      match Config.formats.lookup value with
      | some f => .ok { g with format := some f }
      | none => .error .badValue
    | .config =>
      if value.isEmpty then .error .badValue else .ok { g with config := some (.ofString value) }
    | .verbose | .force | .help | .version => .ok g

/-- Settles the option that is waiting. -/
def settle (g : Given) : Except Usage Given :=
  match g.unsettled with
  | none => .ok g
  | some (_, none) => .error .badValue
  | some (o, some value) => { g with unsettled := none }.setValue o value

def setFlag (g : Given) (o : Opt) : Except Usage Given := do
  let g ← g.settle
  if g.has o then .error .repeated
  else
    match o with
    | .help => .error .help
    | .version => .error .version
    | .verbose => .ok { g with verbose := true }
    | .force => .ok { g with force := true }
    | .colour | .config | .format => .ok g

/-- Gives an option with a value in the same word. -/
def setAttached (g : Given) (o : Opt) (value : String) : Except Usage Given := do
  (← g.settle).setValue o value

/-- Gives an option whose value is to come in the next word. -/
def await (g : Given) (o : Opt) : Except Usage Given := do
  return { (← g.settle) with unsettled := some (o, none) }

/-- An option waits for the next word. -/
def isWaiting (g : Given) : Bool :=
  match g.unsettled with
  | some (_, none) => true
  | _ => false

/-- Takes the next word as the value that is waited for. It is settled later. -/
def takeValue (g : Given) (value : String) : Given :=
  match g.unsettled with
  | some (o, _) => { g with unsettled := some (o, some value) }
  | none => g

def addPath (g : Given) (path : String) : Except Usage Given := do
  let g ← g.settle
  return { g with paths := g.paths ++ [path] }

end Given

-- ---------------------------------------------------------------------------
-- Words
-- ---------------------------------------------------------------------------

/-- Reads a word that starts with two dashes, after the dashes. -/
def readLong (level : Level) (g : Given) (word : List Char) : Except Usage Given :=
  let name := word.takeWhile (· ≠ '=')
  let value := word.dropWhile (· ≠ '=')
  match level.long? (String.ofList name), value with
  | none, _ => .error .unknownArgument
  | some o, [] => if o.takesValue then g.await o else g.setFlag o
  | some o, _ :: value =>
    if o.takesValue then g.setAttached o (String.ofList value) else .error .excessValue

/-- Reads the letters of a word that starts with one dash. -/
def readShort (level : Level) (g : Given) : List Char → Except Usage Given
  | [] => .ok g
  | c :: rest =>
    match level.short? c with
    | none => .error .unknownArgument
    | some o =>
      if o.takesValue then
        match rest with
        | [] => g.await o
        | '=' :: value => g.setAttached o (String.ofList value)
        | value => g.setAttached o (String.ofList value)
      else
        match g.setFlag o with
        | .ok g => readShort level g rest
        | .error e => .error e

/-- A word that starts with a dash, other than the dash alone. -/
inductive Dashed where
  /-- Two dashes alone. -/
  | separator
  | long (name : List Char)
  | short (letters : List Char)

/-- How a word that starts with a dash is to be read. -/
def Dashed.ofWord? (word : String) : Option Dashed :=
  match word.toList with
  | ['-'] => none
  | ['-', '-'] => some .separator
  | '-' :: '-' :: name => some (.long name)
  | '-' :: letters => some (.short letters)
  | _ => none

def readDashed (level : Level) (g : Given) : Dashed → Except Usage Given
  | .separator => .ok g
  | .long name => readLong level g name
  | .short letters => readShort level g letters

/-- Adds a word that is neither option nor value. Only the check takes such words. -/
def addWord (level : Level) (g : Given) (word : String) : Except Usage Given :=
  match level with
  | .check => g.addPath word
  | .top | .init => .error .unknownArgument

/-- Reads the words of a command. After two dashes every word is a path. -/
def readCommand (level : Level) (g : Given) (afterSeparator : Bool) :
    List String → Except Usage Given
  | [] => g.settle
  | word :: rest => do
    if afterSeparator then readCommand level (← addWord level g word) true rest
    else
      match Dashed.ofWord? word with
      | some .separator => readCommand level g true rest
      | some dashed => readCommand level (← readDashed level g dashed) false rest
      | none =>
        if g.isWaiting then readCommand level (g.takeValue word) false rest
        else readCommand level (← addWord level g word) false rest

-- ---------------------------------------------------------------------------
-- The top level
-- ---------------------------------------------------------------------------

/-- The names of the commands, with the one that shows help. -/
def commandNames : List String := ["check", "init", "help"]

/-- What the words after `help` lead to: a command may be named, and nothing after it. -/
def helpOn : List String → Usage
  | [] => .help
  | [name] => if commandNames.contains name then .help else .unknownCommand
  | _ :: _ :: _ => .unknownCommand

/-- The invocation, from what was given on the top level and on that of the command. A
    colour given with the command counts more. -/
def finish (top : Given) (given : Given) (action : Action) : Except Usage Invocation := do
  let top ← top.settle
  return ⟨action, given.colour.or top.colour⟩

/-- Reads a command and the words after it. -/
def readNamed (top : Given) (name : String) (rest : List String) : Except Usage Invocation :=
  match name with
  | "check" => do
    let g ← readCommand .check {} false rest
    finish top g (.check g.paths g.config g.format g.verbose)
  | "init" => do
    let g ← readCommand .init {} false rest
    finish top g (.init g.force)
  | "help" => .error (helpOn rest)
  | _ => .error .unknownCommand

/-- What the end of the words means when no command was named. -/
def endOfTop (top : Given) : Except Usage Invocation := do
  let top ← top.settle
  .error (if top.colour.isSome then .noCommand else .noArguments)

/-- Reads words up to the name of a command. After two dashes no command can be named. -/
def readTop (top : Given) (afterSeparator : Bool) : List String → Except Usage Invocation
  | [] => endOfTop top
  | word :: rest => do
    if afterSeparator then
      .error (if commandNames.contains word then .unknownArgument else .unknownCommand)
    else
      match Dashed.ofWord? word with
      | some .separator => readTop top true rest
      | some dashed => readTop (← readDashed .top top dashed) false rest
      | none =>
        if top.isWaiting then readTop (top.takeValue word) false rest
        else readNamed top word rest

/-- Reads a command line, without the name of the program. -/
def Invocation.parse (words : List String) : Except Usage Invocation :=
  readTop {} false words

end DocLint.Command
