import HtmlLint.Rule.Basic
import HtmlLint.Token.Opening

/-!
# The doctype comes first

The first event that is more than blank text decides, and all later ones are ignored. It must be a
declaration whose first word is `doctype`, in any case, with a space after it.
-/

namespace HtmlLint.Rule

/-- The data of a declaration of the doctype. -/
def isDoctype (data : List Char) : Bool :=
  Text.sameIgnoringCase (data.take 7) ['d', 'o', 'c', 't', 'y', 'p', 'e']
    && (data.drop 7).head?.any isSpace

/-- The event decides whether the doctype comes first. -/
def isSignificant (e : Event) : Bool :=
  !(e.kind == .text && e.raw.all Text.isBlank)

/-- The kinds of events that tokens and attributes give. -/
def contentKinds : List EventKind :=
  EventKind.all.filter fun kind => kind != .start && kind != .finish

/-- Checks an event; `decided` tells that an earlier one was significant. -/
def checkDoctype (e : Event) (decided : Bool) : Bool × List Finding :=
  if decided || !isSignificant e then (decided, [])
  else
    match e.detail with
    | .declaration data => (true, if isDoctype data then [] else [complaint])
    | _ => (true, [complaint])
where
  complaint : Finding :=
    ⟨.error, "Doctype must be first.", e.location, e.raw⟩

def doctypeFirst : Rule :=
  { id := "doctype-first"
    description := "Doctype must be declared first."
    State := Bool
    initial := false
    listeners := contentKinds.map fun kind => ⟨.kind kind, checkDoctype⟩ }

end HtmlLint.Rule
