-- SUMMARY: Ignore files: their lines as globs, and what a file says about an entry of its directory.
import DocLint.FileTree.Basic
import DocLint.Glob.Lookup
import DocLint.Text.WhiteSpace

/-! # Ignore files

An ignore file has a glob on each line. The last line that matches an entry decides:
the entry is dropped, or kept if the line starts with `!`. A line that is no valid
glob says nothing, and if the globs of a file make no set, no line of it does. What is
wrong with a file is kept beside what it says.
-/

namespace DocLint

namespace Ignore

/-- A line that holds a glob. -/
structure Line where
  /-- The line keeps what it matches. -/
  negated : Bool
  /-- The line is about directories only. -/
  dirOnly : Bool
  glob : Glob
  deriving Repr

-- ---------------------------------------------------------------------------
-- Reading a line
-- ---------------------------------------------------------------------------

/-- Drops the white space at the end, unless the line ends in an escaped space. -/
def trimLine (text : List Char) : List Char :=
  if ['\\', ' '].isSuffixOf text then text else Text.trimEnd text

/-- A line and the marks at its start. -/
structure Marked where
  /-- The line starts with `!`. -/
  negated : Bool
  /-- A slash stands before the pattern, which therefore matches in this directory only. -/
  anchored : Bool
  pattern : List Char

/-- Takes off the marks at the start of a line. A mark after a backslash is no mark. -/
def readMarks (text : List Char) : Marked :=
  match text with
  | '\\' :: '!' :: rest => ⟨false, false, '!' :: rest⟩
  | '\\' :: '#' :: rest => ⟨false, false, '#' :: rest⟩
  | '!' :: '/' :: rest => ⟨true, true, rest⟩
  | '!' :: rest => ⟨true, false, rest⟩
  | '/' :: rest => ⟨false, true, rest⟩
  | _ => ⟨false, false, text⟩

/-- Takes off a slash at the end, and a backslash before it. -/
def readDirMark (text : List Char) : Bool × List Char :=
  if text.getLast? = some '/' then
    let body := text.dropLast
    (true, if body.getLast? = some '\\' then body.dropLast else body)
  else (false, text)

/-- The pattern starts with the wildcard for any directories. -/
def startsAnywhere (text : List Char) : Bool :=
  text = ['*', '*'] || ['*', '*', '/'].isPrefixOf text

/-- The glob of a line: without a slash it matches at any depth, and `/**` at the end is
    what is inside a directory and not the directory. -/
def widen (anchored : Bool) (text : List Char) : List Char :=
  let text :=
    if !anchored && !text.contains '/' && !startsAnywhere text then '*' :: '*' :: '/' :: text
    else text
  if ['/', '*', '*'].isSuffixOf text then text ++ ['/', '*'] else text

/-- What a line of an ignore file says, if it says anything. An error shows the line as it
    stands in the file, without the white space at its end. -/
def Line.parse? (text : List Char) : Option (Except Glob.Error Line) :=
  if text.head? = some '#' then none
  else
    let text := trimLine text
    if text.isEmpty then none
    else
      let marked := readMarks text
      let (dirOnly, pattern) := readDirMark marked.pattern
      match Glob.parse .ignoreFile (String.ofList (widen marked.anchored pattern)) with
      | .ok glob => some (.ok ⟨marked.negated, dirOnly, glob⟩)
      | .error e => some (.error ⟨String.ofList text, e.fault⟩)

-- ---------------------------------------------------------------------------
-- Reading a file
-- ---------------------------------------------------------------------------

/-- The lines of a file: a line feed ends one, and a carriage return before it belongs
    to the end. -/
def byteLines (content : Bytes) : List Bytes :=
  let lines := content.splitOn 0x0A
  let last := lines.getLastD []
  lines.dropLast.map (fun l => if l.getLast? = some 0x0D then l.dropLast else l) ++
    (if last.isEmpty then [] else [last])

/-- What is wrong with an ignore file. -/
inductive Problem where
  /-- A line that is no glob. -/
  | badLine (number : Nat) (error : Glob.Error)
  /-- A line that is not UTF-8. -/
  | notText (number : Nat)
  /-- The globs make no set. -/
  | badSet (error : Glob.SetError)
  deriving DecidableEq, Repr

def Problem.message (path : Path) : Problem → String
  | .badLine number e => path.text ++ ": line " ++ toString number ++ ": " ++ e.message
  | .notText number =>
    path.text ++ ": line " ++ toString number ++ ": " ++ FileTree.Fault.notText.message
  | .badSet e => e.message

/-- What an ignore file says, and what is wrong with it. -/
structure Contents where
  lines : List Line := []
  problems : List Problem := []
  deriving Repr

namespace Contents

/-- Adds a line or a problem in front. -/
def cons (number : Nat) (contents : Contents) : Except Glob.Error Line → Contents
  | .ok line => { contents with lines := line :: contents.lines }
  | .error e => { contents with problems := .badLine number e :: contents.problems }

/-- Reads lines, of which the first has the given number, up to one that is not UTF-8.
    Byte order marks at the start of the first line of a file are dropped. -/
def ofLines (number : Nat) : List Bytes → Contents
  | [] => {}
  | bytes :: rest =>
    match Text.Utf8.decode? bytes with
    | none => { problems := [.notText number] }
    | some text =>
      let text := if number = 1 then text.dropWhile (· = '\ufeff') else text
      match Line.parse? text with
      | none => ofLines (number + 1) rest
      | some line => (ofLines (number + 1) rest).cons number line

/-- Passes over a line that is not UTF-8 if nothing else is wrong. -/
def forgive (contents : Contents) : Contents :=
  match contents.problems with
  | [.notText _] => { contents with problems := [] }
  | _ => contents

/-- Takes back all lines if their globs make no set. -/
def checkSet (contents : Contents) : Contents :=
  match Glob.setError? (contents.lines.map Line.glob) with
  | none => contents
  | some e => { lines := [], problems := contents.problems ++ [.badSet e] }

end Contents

/-- What an ignore file with the given content says. -/
def parse (content : Bytes) : Contents :=
  (Contents.ofLines 1 (byteLines content)).forgive.checkSet

-- ---------------------------------------------------------------------------
-- Verdicts
-- ---------------------------------------------------------------------------

/-- What is said about an entry. -/
inductive Verdict where
  | drop
  | keep
  deriving DecidableEq, Repr

/-- The line is about the entry. -/
def Line.applies (line : Line) (path : Bytes) (isDir : Bool) : Bool :=
  (!line.dirOnly || isDir) && line.glob.isMatch path

/-- What the lines of a file say about the entry at a path relative to the directory of
    the file: the last line that is about it decides. -/
def verdict? (lines : List Line) (path : Bytes) (isDir : Bool) : Option Verdict :=
  (lines.reverse.find? fun line => line.applies path isDir).map
    fun line => if line.negated then .keep else .drop

end Ignore

end DocLint
