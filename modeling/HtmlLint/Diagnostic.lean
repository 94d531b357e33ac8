import HtmlLint.Location
import HtmlLint.Text.Split

/-!
# Diagnostics

A rule finds something at a location; the finding becomes a diagnostic when the rule's id and the
line it points at are added. Diagnostics keep the order in which they were found.
-/

namespace HtmlLint

/-- How bad a finding is, worst first. -/
inductive Severity where
  | error
  | warning
  | info
  deriving DecidableEq, Repr, Ord

namespace Severity

def name : Severity → String
  | error => "error"
  | warning => "warning"
  | info => "info"

def all : List Severity :=
  [error, warning, info]

def ofName? (name : String) : Option Severity :=
  all.find? (·.name == name)

def toJson (severity : Severity) : Json :=
  .ofString severity.name

end Severity

/-- What a rule has found. -/
structure Finding where
  severity : Severity
  message : String
  location : Location
  raw : List Char
  deriving DecidableEq, Repr

/-- A finding of a rule, with the line of the document that it points at. -/
structure Diagnostic where
  rule : String
  severity : Severity
  message : String
  location : Location
  raw : List Char
  evidence : List Char
  deriving DecidableEq, Repr

def Diagnostic.toJson (d : Diagnostic) : Json :=
  .record
    [("rule", .ofString d.rule), ("severity", d.severity.toJson), ("message", .ofString d.message),
      ("line", .ofNat d.location.line), ("column", .ofNat d.location.column),
      ("raw", .string d.raw), ("evidence", .string d.evidence)]

/-- A line without the carriage return before its line feed. -/
def withoutReturn (line : List Char) : List Char :=
  if line.getLast? = some '\r' then line.dropLast else line

/-- The lines of a document. -/
def sourceLines (source : List Char) : List (List Char) :=
  (Text.splitOn '\n' source).map withoutReturn

/-- Line `n` of `lines`, counted from one; empty when there is no such line. -/
def lineAt (lines : List (List Char)) (n : Nat) : List Char :=
  match n with
  | 0 => []
  | n + 1 => lines[n]?.getD []

/-- The diagnostic of a finding in a document with these lines. -/
def Finding.diagnose (found : Finding) (lines : List (List Char)) (rule : String) : Diagnostic :=
  { rule
    severity := found.severity
    message := found.message
    location := found.location
    raw := found.raw
    evidence := lineAt lines found.location.line }

end HtmlLint
