import HtmlLint.Rule.Basic

/-!
# Tags come in pairs

The rule keeps the start tags that wait for their end tag, innermost first. An end tag takes the
nearest one of its name and complains about those opened inside it; without one it complains about
itself. Tags still waiting at the end of the document are complained about together.

The elements that need no end tag are those without content, and some that are no longer in use.
-/

namespace HtmlLint.Rule

/-- The elements that need no end tag. -/
def unpairedElements : List (List Char) :=
  ["area", "base", "basefont", "br", "col", "command", "embed", "frame", "hr", "img", "input",
    "isindex", "keygen", "link", "meta", "param", "source", "track", "wbr"].map String.toList

/-- A start tag that waits for its end tag. -/
structure OpenTag where
  name : List Char
  raw : List Char
  line : Nat
  deriving DecidableEq, Repr

/-- The start tag that an event opens. -/
def OpenTag.ofEvent? (e : Event) : Option OpenTag :=
  match e.detail with
  | .tagStart name _ selfClosing =>
    if selfClosing || unpairedElements.contains name then none
    else some ⟨name, e.raw, e.location.line⟩
  | _ => none

/-- The end tag that a start tag waits for. -/
def OpenTag.endTag (tag : OpenTag) : List Char :=
  '<' :: '/' :: (tag.name ++ ['>'])

/-- The complaint about start tags without end tags, innermost first. -/
def missingMessage? : List OpenTag → Option String
  | [] => none
  | innermost :: outer =>
    some ("Tag must be paired, missing: [ "
      ++ String.ofList ((innermost :: outer).flatMap OpenTag.endTag)
      ++ " ], start tag match failed [ " ++ String.ofList innermost.raw ++ " ] on line "
      ++ toString innermost.line ++ ".")

/-- The finding about start tags without end tags, if there are any. -/
def missing (tags : List OpenTag) (location : Location) (raw : List Char) : List Finding :=
  (missingMessage? tags).toList.map fun message => ⟨.error, message, location, raw⟩

/-- Remembers a start tag. -/
def openTag (e : Event) (waiting : List OpenTag) : List OpenTag × List Finding :=
  ((OpenTag.ofEvent? e).toList ++ waiting, [])

/-- Matches an end tag. -/
def closeTag (e : Event) (waiting : List OpenTag) : List OpenTag × List Finding :=
  match e.tagName? with
  | none => (waiting, [])
  | some name =>
    match waiting.dropWhile (·.name != name) with
    | [] =>
      let message := "Tag must be paired, no start tag: [ " ++ String.ofList e.raw ++ " ]"
      (waiting, [⟨.error, message, e.location, e.raw⟩])
    | _ :: outer => (outer, missing (waiting.takeWhile (·.name != name)) e.location e.raw)

/-- Complains about what is left at the end of the document. -/
def closeDocument (e : Event) (waiting : List OpenTag) : List OpenTag × List Finding :=
  (waiting, missing waiting e.location [])

def tagPair : Rule :=
  { id := "tag-pair"
    description := "Tag must be paired."
    State := List OpenTag
    initial := []
    listeners := [⟨.kind .tagStart, openTag⟩, ⟨.kind .tagEnd, closeTag⟩,
      ⟨.kind .finish, closeDocument⟩] }

end HtmlLint.Rule
