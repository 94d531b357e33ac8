import HtmlLint.Command.Arguments
import HtmlLint.Command.Output

/-!
# Running the command

A run is a function of the arguments and of what the files hold. It first settles the rules, then
reads every document, and only then lints. The first fault met ends it with status 2 and nothing
on the standard output. Otherwise the status is 0 when there is nothing to report, and 1 when
there is. What is noted while the documents are linted never changes the status; of it, the warnings
are shown on the standard error.
-/

namespace HtmlLint.Command

/-! ## Faults -/

/-- Why a file cannot be read as text. -/
inductive FileFault where
  /-- The operating system refused, with its reason and the number of the reason. -/
  | system (reason : String) (code : Nat)
  | notText
  | other (message : String)
  deriving DecidableEq, Repr

namespace FileFault

/-- Nothing stands at the path. -/
def missing : FileFault :=
  system "No such file or directory" 2

/-- The path leads through something that is not a directory. -/
def notDirectory : FileFault :=
  system "Not a directory" 20

/-- A directory stands at the path. -/
def directory : FileFault :=
  system "Is a directory" 21

/-- The path, or a name in it, is longer than any can be. -/
def nameTooLong : FileFault :=
  system "File name too long" 36

def message : FileFault → String
  | system reason code => reason ++ " (os error " ++ toString code ++ ")"
  | notText => "stream did not contain valid UTF-8"
  | other message => message

end FileFault

/-- Why a run ends without a report. -/
inductive RunFault where
  | unreadable (file : String) (fault : FileFault)
  | badConfig (file : String) (fault : RuleSet.Fault)
  | badRules (fault : RuleSet.Fault)
  | noInput
  deriving DecidableEq, Repr

namespace RunFault

/-- The wording of a rule set's fault, followed by that of its cause. -/
def withCause (fault : RuleSet.Fault) : String :=
  match fault with
  | .json cause => fault.message ++ ": " ++ cause.message
  | _ => fault.message

def message : RunFault → String
  | unreadable file fault => "failed to read " ++ file ++ ": " ++ fault.message
  | badConfig file fault => "invalid rule set in " ++ file ++ ": " ++ withCause fault
  | badRules fault => "invalid --rules: " ++ withCause fault
  | noInput => "nothing to lint: pass HTML files or --html"

end RunFault

/-! ## Inputs -/

/-- What a path holds. -/
abbrev FileSystem :=
  String → Except FileFault ByteArray

/-- Reads a file as text. -/
def readText (files : FileSystem) (path : String) : Except RunFault (List Char) :=
  match files path with
  | .error fault => .error (.unreadable path fault)
  | .ok bytes =>
    match String.fromUTF8? bytes with
    | some s => .ok s.toList
    | none => .error (.unreadable path .notText)

/-- The rules of a configuration file; without one, all rules unless some are named. -/
def baseRules (files : FileSystem) (options : Options) : Except RunFault RuleSet :=
  match options.config with
  | some path => do
    let s ← readText files path
    match RuleSet.ofJson s with
    | .ok rules => .ok rules
    | .error fault => .error (.badConfig path fault)
  | none => .ok (if options.rules.isSome then .off else .all)

/-- The rules asked for: those of the configuration, with the named ones on top. -/
def chosenRules (files : FileSystem) (options : Options) : Except RunFault RuleSet := do
  let rules ← baseRules files options
  match options.rules with
  | none => .ok rules
  | some list =>
    match RuleSet.ofList list.toList with
    | .ok top => .ok (rules.apply top)
    | .error fault => .error (.badRules fault)

/-- The documents to lint, with their names. -/
def documents (files : FileSystem) (options : Options) :
    Except RunFault (List (String × List Char)) :=
  match options.html with
  | some html => .ok [("<html>", html.toList)]
  | none => options.files.mapM fun path => do .ok (path, ← readText files path)

/-! ## Runs -/

/-- The rules and the inputs of a run. -/
def prepare (files : FileSystem) (options : Options) :
    Except RunFault (RuleSet × List (String × List Char)) := do
  let rules ← chosenRules files options
  let inputs ← documents files options
  if inputs.isEmpty then .error .noInput else .ok (rules, inputs)

/-- The reports on the inputs, in their order. -/
def lintAll (rules : RuleSet) (inputs : List (String × List Char)) : List FileReport :=
  inputs.map fun (file, document) => ⟨file, Registry.builtin.lint rules document⟩

/-- What is noted when the inputs are linted one after the other. -/
def lintAllNotices (given : Warnings) (rules : RuleSet) : List (String × List Char) → List Notice
  | [] => []
  | (file, document) :: inputs =>
    let (given, notices) := Registry.builtin.lintNotices given rules document
    .linting file (Text.byteLength document) :: notices ++ lintAllNotices given rules inputs

/-- What a run leaves behind. -/
structure Outcome where
  status : Nat
  stdout : String
  /-- What was noted on the way. -/
  notices : List Notice
  /-- The line about the fault that ended the run; empty if none did. -/
  error : String
  deriving DecidableEq, Repr

/-- What stands on the standard error: the warnings, and the fault. -/
def Outcome.stderr (outcome : Outcome) : String :=
  String.join ((outcome.notices.filter (·.level = .warn)).map noticeText) ++ outcome.error

def renderReports (format : Format) (reports : List FileReport) : String :=
  match format with
  | .text => reportsText reports
  | .json => reportsJson reports

/-- The name and version of the program. -/
def versionText : String :=
  "lintel 0.1.0\n"

/-- How the command is called. -/
def usageText : String :=
  "Usage: lintel [OPTIONS] [FILE]...\n"

/-- The help: what the program is, how it is called, its arguments, and examples. -/
def helpText : String :=
  "Command-line front end for the Lintel HTML linter\n\n"
    ++ usageText ++ "\n"
    ++ "Arguments:\n"
    ++ "  [FILE]...  HTML files to lint\n\n"
    ++ "Options:\n"
    ++ "      --html <HTML>      Lint an HTML string instead of files\n"
    ++ "      --rules <RULES>    Rules to run, e.g. `tag-pair,attr-lowercase:false`\n"
    ++ "      --config <FILE>    JSON rule set, e.g. `\x7b\"tag-pair\": true\x7d`\n"
    ++ "      --list-rules       List the available rules and exit\n"
    ++ "      --format <FORMAT>  Output format [default: text] [possible values: text, json]\n"
    ++ "  -h, --help             Print help\n"
    ++ "  -V, --version          Print version\n\n"
    ++ "EXAMPLES:\n"
    ++ "    # Lint files with every rule\n"
    ++ "    lintel index.html about.html\n\n"
    ++ "    # Lint an HTML string\n"
    ++ "    lintel --html '<p Class=x>'\n\n"
    ++ "    # Run only some rules\n"
    ++ "    lintel --rules tag-pair,space-tab-mixed-disabled index.html\n\n"
    ++ "    # Use a JSON rule set and print JSON\n"
    ++ "    lintel --config .lintelrc --format json index.html\n"

/-- What is said when the arguments are refused. -/
def refusalText : String :=
  usageText ++ "\nFor more information, try '--help'.\n"

/-- Runs with the options given. -/
def runOptions (files : FileSystem) (options : Options) : Outcome :=
  if options.listRules then ⟨0, rulesText .builtin, [], ""⟩
  else
    match prepare files options with
    | .error fault => ⟨2, "", [], errorText fault.message⟩
    | .ok (rules, inputs) =>
      let reports := lintAll rules inputs
      let status := if reports.all (·.report.isClean) then 0 else 1
      ⟨status, renderReports (options.format.getD .text) reports,
        lintAllNotices .empty rules inputs, ""⟩

/-- Runs the command; nothing is returned when the arguments are refused. -/
def run? (files : FileSystem) (arguments : List String) : Option Outcome := do
  match ← request? arguments with
  | .help => some ⟨0, helpText, [], ""⟩
  | .version => some ⟨0, versionText, [], ""⟩
  | .run options => some (runOptions files options)

end HtmlLint.Command
