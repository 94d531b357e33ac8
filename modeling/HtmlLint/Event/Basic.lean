import HtmlLint.Location
import HtmlLint.Token.Basic

/-!
# Events

What a document consists of, as its listeners see it. There is one event for the start of the
document, one for every token, one for every attribute of a start tag right after the tag's own,
and one for the end of the document. Tag names are in lower case.
-/

namespace HtmlLint

/-- The kinds of events, in the order in which they are listed. -/
inductive EventKind where
  | start
  | tagStart
  | tagEnd
  | attr
  | text
  | comment
  | conditional
  | declaration
  | cdata
  | finish
  deriving DecidableEq, Repr

namespace EventKind

def all : List EventKind :=
  [start, tagStart, tagEnd, attr, text, comment, conditional, declaration, cdata, finish]

/-- The name by which listeners ask for a kind. -/
def name : EventKind → String
  | start => "start"
  | tagStart => "tagstart"
  | tagEnd => "tagend"
  | attr => "attr"
  | text => "text"
  | comment => "comment"
  | conditional => "conditionalcomment"
  | declaration => "doctype"
  | cdata => "cdata"
  | finish => "end"

/-- The kind with exactly this name. -/
def ofName? (name : String) : Option EventKind :=
  all.find? (·.name == name)

/-- The wording when there is no kind with a name. -/
def unknownMessage : String :=
  "Matching variant not found"

theorem mem_all (kind : EventKind) : kind ∈ all := by
  cases kind <;> decide

theorem ofName?_name (kind : EventKind) : ofName? kind.name = some kind := by
  cases kind <;> decide

end EventKind

/-- What happened, with the parts that matter. -/
inductive Event.Detail where
  | start
  | tagStart (name : List Char) (attributes : List Attribute) (selfClosing : Bool)
  | tagEnd (name : List Char)
  | attr (tag : List Char) (item : Attribute)
  | text
  | comment (data : List Char)
  | conditional (data : List Char)
  | declaration (data : List Char)
  | cdata (data : List Char) (element : Option RawElement)
  | finish
  deriving DecidableEq, Repr

/-- An event. Its text is empty at the start and at the end of the document; its depth is the number
of elements it stands in. -/
structure Event where
  detail : Event.Detail
  raw : List Char
  span : Span
  location : Location
  depth : Nat
  deriving DecidableEq, Repr

namespace Event

def Detail.kind : Detail → EventKind
  | start => .start
  | tagStart .. => .tagStart
  | tagEnd .. => .tagEnd
  | attr .. => .attr
  | text => .text
  | comment .. => .comment
  | conditional .. => .conditional
  | declaration .. => .declaration
  | cdata .. => .cdata
  | finish => .finish

def kind (e : Event) : EventKind :=
  e.detail.kind

/-- The name of the tag that the event belongs to. -/
def tagName? (e : Event) : Option (List Char) :=
  match e.detail with
  | .tagStart name .. => some name
  | .tagEnd name => some name
  | .attr tag _ => some tag
  | _ => none

/-- The location `offset` bytes into the text of the event, or of the last boundary before that. -/
def locate (e : Event) (offset : Nat) : Location :=
  e.location.after (Text.takeBytes offset e.raw)

end Event

end HtmlLint
