import HtmlLint.Json.Reader
import HtmlLint.RuleSet.Basic
import HtmlLint.Text.Characters
import HtmlLint.Text.Split

/-!
# Reading rule sets

A rule set is written in one of three ways:

- as a list, `a,b:false`: a rule is on unless its value is `false`;
- as a JSON object that maps ids to true or false, where the last value of an id counts;
- as a comment at the top of a document: a keyword, a blank, and a list, all on one line.
-/

namespace HtmlLint.RuleSet

/-- Why a text is not a rule set. -/
inductive Fault where
  | json (fault : Json.Fault)
  | notAnObject
  | invalidValue (rule : String)
  | emptyId
  deriving DecidableEq, Repr

namespace Fault

def message : Fault → String
  | json fault => "invalid rule set JSON: " ++ fault.message
  | notAnObject => "rule set must be a JSON object mapping rule ids to true or false"
  | invalidValue rule => "rule `" ++ rule ++ "` must be set to true or false"
  | emptyId => "empty rule id in rule list"

end Fault

/-! ## Lists -/

/-- The rule that a piece of a list names, and whether it is on. -/
def switch? (piece : List Char) : Option (String × Bool) :=
  let (id, value) := (Text.cutAt? (· == ':') piece).getD (piece, [])
  if (Text.trim id).isEmpty then none
  else some (String.ofList (Text.trim id), Text.trim value != ['f', 'a', 'l', 's', 'e'])

/-- Reads a list. A blank list names nothing. -/
def ofList (s : List Char) : Except Fault RuleSet :=
  if s.all Text.isBlank then .ok off
  else
    match (Text.splitOn ',' s).mapM switch? with
    | some entries => .ok (off.setAll entries)
    | none => .error .emptyId

/-! ## JSON -/

/-- The last value of every name, sorted by name. -/
def lastValues (members : List (List Char × Json)) : List (String × Json) :=
  let values : Std.TreeMap String Json :=
    members.foldl (fun values (name, value) => values.insert (String.ofList name) value) ∅
  values.toList

/-- The switch that a member is. -/
def switch : String × Json → Except Fault (String × Bool)
  | (id, .bool enabled) => .ok (id, enabled)
  | (id, _) => .error (.invalidValue id)

/-- The rule set that a JSON value stands for. -/
def ofValue : Json → Except Fault RuleSet
  | .object members => do
    let entries ← (lastValues members).mapM switch
    .ok (off.setAll entries)
  | _ => .error .notAnObject

/-- Reads a JSON object. -/
def ofJson (s : List Char) : Except Fault RuleSet :=
  match Json.read s with
  | .ok value => ofValue value
  | .error fault => .error (.json fault)

/-! ## Comments -/

/-- The word that starts the comment. -/
def keyword : List Char :=
  ['l', 'i', 'n', 't', 'e', 'l']

/-- The list after the keyword in the data of a comment. -/
def inlineList? (data : List Char) : Option (List Char) :=
  let body := Text.trim data
  if body.any (fun c => c == '\r' || c == '\n') then none
  else
    match Text.cutAt? Text.isBlank body with
    | some (word, list) => if Text.sameIgnoringCase word keyword then some list else none
    | none => none

/-- The data of a comment that opens the document and is closed. -/
def openingComment? (document : List Char) : Option (List Char) := do
  let s ← Text.after? ['<', '!', '-', '-'] (Text.trimStart document)
  let split := Text.breakAt (Text.startsWith ['-', '-', '>']) s
  if split.2.isEmpty then none else some split.1

/-- Reads the rule set in the comment at the top of a document, if there is one. -/
def ofDocument (document : List Char) : Except Fault (Option RuleSet) :=
  match (openingComment? document).bind inlineList? with
  | some list => (ofList list).map some
  | none => .ok none

end HtmlLint.RuleSet
