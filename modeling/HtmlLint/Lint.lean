import HtmlLint.Rule.Registry
import HtmlLint.RuleSet.Reading
import HtmlLint.Warnings

/-!
# Linting a document

A pass over a document has three parts. The rule set is settled: the one given, with the document's
own on top. Then every enabled rule subscribes its listeners, in order of registration; what a rule
that refuses to run had subscribed is rolled back. Last, the calls for the document are answered
one after the other, each by the rule that its label names.
-/

namespace HtmlLint

/-! ## Settling the rule set -/

/-- The rule set given, with the document's own on top; a malformed one counts for nothing. -/
def settleRules (rules : RuleSet) (document : List Char) : RuleSet :=
  match RuleSet.ofDocument document with
  | .ok (some inline) => rules.apply inline
  | .ok none => rules
  | .error _ => rules

def settleNotices (document : List Char) : List Notice :=
  match RuleSet.ofDocument document with
  | .ok _ => []
  | .error fault => [.inlineIgnored fault.message]

/-- The ids that a rule set switches on although no rule has them. -/
def Registry.unknownIds (registry : Registry) (rules : RuleSet) : List String :=
  (rules.entries.filter fun (id, enabled) => enabled && (registry.find? id).isNone).map (·.1)

/-! ## Starting rules -/

/-- Names a listener by its rule and its place among the rule's listeners. -/
structure Handle where
  rule : String
  listener : Nat
  deriving DecidableEq, Repr

/-- The targets of a rule's listeners, with their names. -/
def Rule.handles (rule : Rule) : List (Target × Handle) :=
  rule.listeners.zipIdx.map fun (listener, place) => (listener.target, ⟨rule.id, place⟩)

/-- A rule in the middle of a document. -/
structure Session where
  rule : Rule
  state : rule.State

def Session.start (rule : Rule) : Session :=
  ⟨rule, rule.initial⟩

/-- The rules that were started. -/
structure Setup where
  subscriptions : Subscriptions Handle
  sessions : List Session
  failures : List Failure
  notices : List Notice

namespace Setup

def empty : Setup :=
  ⟨.empty, [], [], []⟩

/-- Starts a rule: its listeners subscribe, and if it refuses they are dropped again. -/
def start (setup : Setup) (rule : Rule) : Setup :=
  let subscribed := setup.subscriptions.subscribeAll rule.handles
  match rule.refusal with
  | none =>
    { setup with
      subscriptions := subscribed
      sessions := setup.sessions ++ [.start rule] }
  | some reason =>
    let failure := rule.failure reason
    { setup with
      subscriptions := subscribed.rollback setup.subscriptions.mark
      failures := setup.failures ++ [failure]
      notices := setup.notices ++ [.ruleSkipped failure.rule failure.reason] }

end Setup

/-- Starts the enabled rules in order of registration. -/
def Registry.start (registry : Registry) (rules : RuleSet) : Setup :=
  (registry.rules.filter (rules.isEnabled ·.id)).foldl Setup.start .empty

/-! ## Answering calls -/

namespace Session

/-- Lets a listener of the rule react to an event. -/
def react (session : Session) (listener : Nat) (e : Event) : Session × List Finding :=
  match session.rule.listeners[listener]? with
  | some l =>
    let (state, found) := l.react e session.state
    (⟨session.rule, state⟩, found)
  | none => (session, [])

/-- Answers a call if it is for the rule. -/
def answer (session : Session) (call : Call Handle) : Session × List Finding :=
  if session.rule.id = call.label.rule then session.react call.label.listener call.event
  else (session, [])

end Session

/-- Where the answering of calls stands. -/
structure Pass where
  sessions : List Session
  diagnostics : Array Diagnostic

/-- Answers a call, in a document with these lines. -/
def Pass.answer (lines : List (List Char)) (pass : Pass) (call : Call Handle) : Pass :=
  let answers := pass.sessions.map (·.answer call)
  let found := answers.flatMap (·.2)
  { sessions := answers.map (·.1)
    diagnostics := pass.diagnostics ++ found.map (·.diagnose lines call.label.rule) }

/-! ## Reports -/

/-- What a pass over a document gives. -/
structure Report where
  diagnostics : List Diagnostic
  failures : List Failure
  deriving DecidableEq, Repr

namespace Report

/-- There is nothing to report. -/
def isClean (report : Report) : Bool :=
  report.diagnostics.isEmpty && report.failures.isEmpty

/-- The number of diagnostics of a severity. -/
def count (report : Report) (severity : Severity) : Nat :=
  report.diagnostics.countP (·.severity == severity)

/-- The report with the name of what was linted. -/
def toJson (report : Report) (file : String) : Json :=
  .record
    [("file", .ofString file), ("diagnostics", .array (report.diagnostics.map Diagnostic.toJson)),
      ("failures", .array (report.failures.map Failure.toJson))]

end Report

namespace Registry

/-- Lints a document. -/
def lint (registry : Registry) (rules : RuleSet) (document : List Char) : Report :=
  let setup := registry.start (settleRules rules document)
  let lines := sourceLines document
  let pass := (setup.subscriptions.calls document).foldl (Pass.answer lines) ⟨setup.sessions, #[]⟩
  ⟨pass.diagnostics.toList, setup.failures⟩

/-- What is to be noted when a document is linted. An unknown id is warned of only once, so the
warnings given so far are taken and handed on. -/
def lintNotices (registry : Registry) (given : Warnings) (rules : RuleSet) (document : List Char) :
    Warnings × List Notice :=
  let settled := settleRules rules document
  let setup := registry.start settled
  let report := registry.lint rules document
  let (given, warned) := given.announceAll "Rules" ((registry.unknownIds settled).map fun id =>
    "unknown rule `" ++ id ++ "` in rule set")
  (given, settleNotices document ++ warned ++ setup.notices ++ setup.subscriptions.notices document
    ++ [.linted setup.subscriptions.size report.diagnostics.length report.failures.length])

end Registry

end HtmlLint
