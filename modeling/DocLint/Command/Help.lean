-- SUMMARY: What is printed for a command line that asks for help or cannot be followed.
import DocLint.Command.Args

/-! # Help -/

namespace DocLint.Command

/-- How the program is called. -/
def helpLines : List String :=
  ["Flag declarations that lack an immediately preceding documentation comment",
   "",
   "Usage: doccheck [--color auto|always|never] <COMMAND>",
   "",
   "Commands:",
   "  check [PATHS]...      Check root directories for undocumented declarations",
   "    -c, --config FILE           Configuration file",
   "    -f, --format human|jsonl    Output format",
   "    -v, --verbose               Report skipped files and totals on stderr",
   "  init [--force]        Write a default doccheck.toml",
   "  help [COMMAND]        Print this text",
   "",
   "  -h, --help            Print this text",
   "  -V, --version         Print the version"]

/-- What is wrong with a command line; nothing if it only asks for a text. -/
def Usage.fault? : Usage → Option String
  | .help | .version | .noArguments => none
  | .noCommand => some "a command is missing"
  | .unknownCommand => some "there is no such command"
  | .unknownArgument => some "there is no such option or argument here"
  | .badValue => some "an option has no value, or one that it does not take"
  | .repeated => some "an option is given twice"
  | .excessValue => some "a value is given to an option that takes none"

/-- The lines, each with its end. -/
def endLines (lines : List String) : String :=
  String.join (lines.map (· ++ "\n"))

/-- The text that a command line is answered with. -/
def Usage.text (usage : Usage) : String :=
  match usage, usage.fault? with
  | .version, _ => endLines ["doccheck 0.1.0"]
  | _, none => endLines helpLines
  | _, some fault => endLines ["error: " ++ fault, "", "For more information, try '--help'."]

end DocLint.Command
