import HtmlLint.Lint

/-!
# Output of the command

Reports are written as text for a terminal or as JSON. The text lists every diagnostic with the line
it points at, then a tally in which a rule that did not run counts as an error.
-/

namespace HtmlLint.Command

/-! ## Styles

Colours and weights for a terminal, as control sequences around a text. -/

/-- A control sequence with a number. -/
def control (code : String) : String :=
  "\x1b[" ++ code ++ "m"

/-- Text in a colour, after which the colour is the terminal's own again. -/
def coloured (code s : String) : String :=
  control code ++ s ++ control "39"

def red (s : String) : String :=
  coloured "31" s

def green (s : String) : String :=
  coloured "32" s

def yellow (s : String) : String :=
  coloured "33" s

def blue (s : String) : String :=
  coloured "34" s

def bold (s : String) : String :=
  control "1" ++ s ++ control "0"

def dimmed (s : String) : String :=
  control "2" ++ s ++ control "0"

/-! ## Text -/

/-- A report on a named document. -/
structure FileReport where
  file : String
  report : Report
  deriving DecidableEq, Repr

def severityText (severity : Severity) : String :=
  match severity with
  | .error => bold (red severity.name)
  | .warning => bold (yellow severity.name)
  | .info => bold (blue severity.name)

/-- The lines about a diagnostic. -/
def diagnosticText (file : String) (d : Diagnostic) : String :=
  file ++ ":" ++ d.location.text ++ ": " ++ severityText d.severity ++ ": " ++ d.message ++ " "
    ++ dimmed ("[" ++ d.rule ++ "]") ++ "\n"
    ++ (if d.evidence.isEmpty then "" else "    " ++ dimmed (String.ofList d.evidence) ++ "\n")

def failureText (file : String) (failure : Failure) : String :=
  file ++ ": " ++ red "rule failed:" ++ " " ++ failure.reason ++ "\n"

def FileReport.text (entry : FileReport) : String :=
  String.join (entry.report.diagnostics.map (diagnosticText entry.file))
    ++ String.join (entry.report.failures.map (failureText entry.file))

/-- The numbers of problems. -/
structure Tally where
  errors : Nat
  warnings : Nat
  infos : Nat
  deriving DecidableEq, Repr

namespace Tally

def total (tally : Tally) : Nat :=
  tally.errors + tally.warnings + tally.infos

/-- A number taken from every report, added up. -/
def sumOf (reports : List FileReport) (number : Report → Nat) : Nat :=
  reports.foldl (fun sum entry => sum + number entry.report) 0

/-- A rule that failed counts as an error. -/
def ofReports (reports : List FileReport) : Tally :=
  { errors := sumOf reports fun report => report.count .error + report.failures.length
    warnings := sumOf reports (·.count .warning)
    infos := sumOf reports (·.count .info) }

/-- The closing lines for a number of files. -/
def text (tally : Tally) (files : Nat) : String :=
  if tally.total = 0 then green "No problems found." ++ "\n"
  else
    "\n" ++ bold (toString tally.total ++ " problems") ++ " (" ++ toString tally.errors
      ++ " errors, " ++ toString tally.warnings ++ " warnings, " ++ toString tally.infos
      ++ " info) in " ++ toString files ++ " files\n"

end Tally

def reportsText (reports : List FileReport) : String :=
  String.join (reports.map FileReport.text) ++ (Tally.ofReports reports).text reports.length

/-! ## JSON -/

def reportsJson (reports : List FileReport) : String :=
  (Json.array (reports.map fun r => r.report.toJson r.file)).pretty ++ "\n"

/-! ## Rules -/

/-- The width of the column of ids. -/
def idWidth : Nat :=
  26

/-- A rule on one line: its id, filled up with spaces, and its description. -/
def ruleText (rule : Rule) : String :=
  bold (String.ofList (rule.id.toList.rightpad idWidth ' ')) ++ " " ++ rule.description ++ "\n"

def rulesText (registry : Registry) : String :=
  String.join (registry.rules.map ruleText)

/-! ## Errors and notices -/

def errorText (message : String) : String :=
  bold (red "error:") ++ " " ++ message ++ "\n"

def detailText : Notice.Detail → String
  | .number n => toString n
  | .text s => s

/-- A notice on one line, without the time that a log puts before it. -/
def noticeText (notice : Notice) : String :=
  notice.level.name ++ " " ++ notice.message
    ++ String.join (notice.details.map fun (name, d) => " " ++ name ++ "=" ++ detailText d) ++ "\n"

end HtmlLint.Command
