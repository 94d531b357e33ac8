import HtmlLint.Event.Basic
import HtmlLint.Event.OpenElements
import HtmlLint.Token.Scan

/-!
# The events of a document

The events depend on the document alone. `Walk` is where the reading of tokens stands: a locator
that is moved from token to token, and the elements that are open.
-/

namespace HtmlLint

/-- A place in a document: where it is, and what is open there. -/
structure Walk where
  locator : Locator
  inside : OpenElements

namespace Walk

/-- The start of a document. -/
def atStart (source : List Char) : Walk :=
  ⟨.atStart source, []⟩

/-- Moves on to an offset, without opening or closing anything. -/
def reach (here : Walk) (offset : Nat) : Walk :=
  { here with locator := here.locator.locate offset }

/-- The location of the place. -/
def location (here : Walk) : Location :=
  here.locator.location

/-- The open elements after a token. -/
def insideAfter (here : Walk) (t : Token) : OpenElements :=
  match t.kind with
  | .startTag name _ selfClosing => here.inside.enter (Text.lower name) selfClosing
  | .endTag name => here.inside.leave (Text.lower name)
  | _ => here.inside

/-- The start of a token, with what the token opens and closes. -/
def after (here : Walk) (t : Token) : Walk :=
  { here.reach t.span.start with inside := here.insideAfter t }

/-- The event of an attribute. It is located by its distance from the start of its tag. -/
def attributeEvent (here : Walk) (t : Token) (tag : List Char) (item : Attribute) : Event :=
  { detail := .attr tag item
    raw := item.raw
    span := item.span
    location := here.location.after (Text.takeBytes (item.span.start - t.span.start) t.raw)
    depth := here.inside.length }

/-- The events of a token that starts here. An end tag stands outside of what it closes. -/
def events (here : Walk) (t : Token) : List Event :=
  match t.kind with
  | .startTag name attributes selfClosing =>
    let tag := Text.lower name
    event (.tagStart tag attributes selfClosing) :: attributes.map (here.attributeEvent t tag)
  | .endTag name =>
    let tag := Text.lower name
    [{ event (.tagEnd tag) with depth := (here.inside.leave tag).length }]
  | .text => [event .text]
  | .comment data => [event (.comment data)]
  | .conditional data => [event (.conditional data)]
  | .declaration data => [event (.declaration data)]
  | .cdata data element => [event (.cdata data element)]
where
  /-- The event of the token itself, in what is open before it. -/
  event (detail : Event.Detail) : Event :=
    ⟨detail, t.raw, t.span, here.location, here.inside.length⟩

/-- The place after some tokens. -/
def afterAll (here : Walk) (tokens : List Token) : Walk :=
  tokens.foldl after here

/-- The events of some tokens. -/
def allEvents (here : Walk) (tokens : List Token) : List Event :=
  go #[] here tokens
where
  /-- Carries the events so far. -/
  go (done : Array Event) (here : Walk) : List Token → List Event
    | [] => done.toList
    | t :: tokens => go (done ++ (here.reach t.span.start).events t) (here.after t) tokens

theorem allEvents_go (done : Array Event) (here : Walk) (tokens : List Token) :
    allEvents.go done here tokens = done.toList ++ here.allEvents tokens := by
  induction tokens generalizing done here with
  | nil => simp [allEvents, allEvents.go]
  | cons t tokens ih =>
    rw [allEvents, allEvents.go, allEvents.go, ih, ih]
    simp

@[simp]
theorem allEvents_nil (here : Walk) : here.allEvents [] = [] := rfl

@[simp]
theorem allEvents_cons (here : Walk) (t : Token) (tokens : List Token) :
    here.allEvents (t :: tokens)
      = (here.reach t.span.start).events t ++ (here.after t).allEvents tokens := by
  rw [allEvents, allEvents.go, allEvents_go]
  simp

theorem allEvents_append (here : Walk) (a b : List Token) :
    here.allEvents (a ++ b) = here.allEvents a ++ (here.afterAll a).allEvents b := by
  induction a generalizing here with
  | nil => rfl
  | cons t a ih => simp [ih, afterAll]

end Walk

/-- The first event of every document. -/
def startEvent : Event :=
  ⟨.start, [], ⟨0, 0⟩, .start, 0⟩

/-- The last event of a document, at its end. -/
def finishEvent (source : List Char) (here : Walk) : Event :=
  let length := Text.byteLength source
  ⟨.finish, [], ⟨length, length⟩, (here.reach length).location, here.inside.length⟩

/-- The events of a document that is read from this place. -/
def Walk.documentEvents (here : Walk) (source : List Char) : List Event :=
  let tokens := scan source
  startEvent :: (here.allEvents tokens ++ [finishEvent source (here.afterAll tokens)])

/-- The elements left open at the end of a document. -/
def unclosed (source : List Char) : OpenElements :=
  ((Walk.atStart source).afterAll (scan source)).inside

/-- The events of a document. -/
def events (source : List Char) : List Event :=
  (Walk.atStart source).documentEvents source

theorem events_eq (source : List Char) :
    events source = startEvent :: ((Walk.atStart source).allEvents (scan source)
      ++ [finishEvent source ((Walk.atStart source).afterAll (scan source))]) := rfl

end HtmlLint
