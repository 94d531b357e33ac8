/-!
# Notices

Reading, linting and registering never fail on odd input; what was odd is noted. A notice states
one such fact, or the tally of a finished pass. Every wording is here.
-/

namespace HtmlLint

/-- How much attention a notice asks for. -/
inductive Notice.Level where
  | trace
  | debug
  | warn
  deriving DecidableEq, Repr

def Notice.Level.name : Level → String
  | trace => "TRACE"
  | debug => "DEBUG"
  | warn => "WARN"

/-- A detail of a notice. -/
inductive Notice.Detail where
  | number (n : Nat)
  | text (s : String)
  deriving DecidableEq, Repr

/-- Something worth noting about a document, a rule or a rule set. -/
inductive Notice where
  /-- A comment that starts at `offset` runs to the end of the document. -/
  | openComment (offset : Nat)
  /-- A declaration or section that starts at `offset` lacks its `close`. -/
  | openDeclaration (offset : Nat) (close : List Char)
  /-- An end tag that starts at `offset` lacks its `>`. -/
  | openEndTag (offset : Nat) (name : List Char)
  /-- The document ends inside a start tag. -/
  | openStartTag (offset : Nat) (name : List Char)
  /-- A start tag ends where other markup opens. -/
  | cutStartTag (offset : Nat) (name : List Char)
  /-- A quoted value that starts at `offset` lacks its closing quote. -/
  | openValue (offset : Nat)
  /-- The content of `element`, from `offset` on, is not followed by its end tag. -/
  | openRawText (offset : Nat) (element : List Char)
  /-- An input of the command is about to be linted. -/
  | linting (file : String) (bytes : Nat)
  /-- All events of a document were handed out; `unclosed` elements were left open. -/
  | parsed (tokens listeners unclosed : Nat)
  /-- A lint pass ended. -/
  | linted (listeners diagnostics failures : Nat)
  /-- A rule could not start. -/
  | ruleSkipped (rule reason : String)
  /-- A rule took the place of an earlier one with the same id. -/
  | ruleReplaced (rule : String)
  /-- The document's own rule set was malformed. -/
  | inlineIgnored (reason : String)
  /-- A warning of `component`, given once. -/
  | warning (component message : String)
  deriving DecidableEq, Repr

namespace Notice

/-- How much attention the notice asks for. -/
def level : Notice → Level
  | openComment .. | openDeclaration .. | openEndTag .. | openStartTag .. | cutStartTag ..
  | openValue .. | openRawText .. => .trace
  | linting .. | parsed .. | linted .. => .debug
  | ruleSkipped .. | ruleReplaced .. | inlineIgnored .. | warning .. => .warn

/-- The wording of the notice. -/
def message : Notice → String
  | openComment .. => "unterminated comment"
  | openDeclaration .. => "unterminated declaration"
  | openEndTag .. => "unterminated end tag"
  | openStartTag .. => "unterminated start tag"
  | cutStartTag .. => "start tag cut off by markup"
  | openValue .. => "unterminated attribute value"
  | openRawText .. => "unterminated raw text element"
  | linting .. => "linting"
  | parsed .. => "parse complete"
  | linted .. => "lint pass complete"
  | ruleSkipped .. => "rule skipped"
  | ruleReplaced .. => "rule registered twice; replacing the earlier definition"
  | inlineIgnored .. => "ignoring malformed inline rule set"
  | warning _ message => message

/-- The details of the notice, by name. -/
def details : Notice → List (String × Detail)
  | openComment offset => [("offset", .number offset)]
  | openDeclaration offset close =>
    [("offset", .number offset), ("close", .text (String.ofList close))]
  | openEndTag offset name => [("offset", .number offset), ("name", .text (String.ofList name))]
  | openStartTag offset name => [("offset", .number offset), ("name", .text (String.ofList name))]
  | cutStartTag offset name => [("offset", .number offset), ("name", .text (String.ofList name))]
  | openValue offset => [("offset", .number offset)]
  | openRawText offset element =>
    [("offset", .number offset), ("element", .text (String.ofList element))]
  | linting file bytes => [("file", .text file), ("bytes", .number bytes)]
  | parsed tokens listeners unclosed =>
    [("tokens", .number tokens), ("listeners", .number listeners), ("unclosed", .number unclosed)]
  | linted listeners diagnostics failures =>
    [("listeners", .number listeners), ("diagnostics", .number diagnostics),
      ("failures", .number failures)]
  | ruleSkipped rule reason => [("rule", .text rule), ("err", .text reason)]
  | ruleReplaced rule => [("rule", .text rule)]
  | inlineIgnored reason => [("err", .text reason)]
  | warning component _ => [("component", .text component)]

end Notice

end HtmlLint
