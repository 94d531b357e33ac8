import HtmlLint.Event.Stream

/-!
# Subscriptions

Listeners subscribe to a kind of event or to the start tags of a name. They are known here by a
label only; what they do when called is up to whoever reads the calls. Each subscription takes the
next number, numbers are never given again, and rolling back to a mark drops every subscription
numbered from it on.

For every event the listeners of its kind are called in order of subscription; for a start tag
those of its name follow, before the events of its attributes.

A `Parser` reads one document after the other with its subscriptions. It keeps track of the open
elements, and forgets at the start of a document what the last one left open.
-/

namespace HtmlLint

/-- What a listener asks for. -/
inductive Target where
  | kind (kind : EventKind)
  /-- The start tags of a name, in any case. -/
  | tag (name : List Char)
  deriving DecidableEq, Repr

namespace Target

/-- The target with its name in the case of the events. -/
def normal : Target → Target
  | kind k => kind k
  | tag name => tag (Text.lower name)

end Target

structure Subscription (α : Type) where
  number : Nat
  target : Target
  label : α
  deriving DecidableEq, Repr

/-- Subscriptions in the order in which they were made. -/
structure Subscriptions (α : Type) where
  entries : List (Subscription α)
  /-- The number of the next subscription. -/
  next : Nat
  deriving DecidableEq, Repr

/-- The call of a listener for an event. -/
structure Call (α : Type) where
  label : α
  event : Event
  deriving DecidableEq, Repr

namespace Subscriptions

variable {α : Type}

def empty : Subscriptions α :=
  ⟨[], 0⟩

def size (subs : Subscriptions α) : Nat :=
  subs.entries.length

def subscribe (subs : Subscriptions α) (target : Target) (label : α) : Subscriptions α :=
  ⟨subs.entries ++ [⟨subs.next, target.normal, label⟩], subs.next + 1⟩

/-- Subscribes several listeners in order. -/
def subscribeAll (subs : Subscriptions α) (listeners : List (Target × α)) : Subscriptions α :=
  listeners.foldl (fun subs (target, label) => subs.subscribe target label) subs

/-- The point up to which subscriptions were made. -/
def mark (subs : Subscriptions α) : Nat :=
  subs.next

/-- Drops every subscription made after a mark was taken. -/
def rollback (subs : Subscriptions α) (mark : Nat) : Subscriptions α :=
  { subs with entries := subs.entries.filter (·.number < mark) }

/-- The labels of the listeners of a target, in order of subscription. -/
def listeners (subs : Subscriptions α) (target : Target) : List α :=
  (subs.entries.filter (·.target = target)).map (·.label)

/-- The listeners called for an event, in order. -/
def called (subs : Subscriptions α) (e : Event) : List α :=
  subs.listeners (.kind e.kind) ++
    match e.detail with
    | .tagStart name .. => subs.listeners (.tag name)
    | _ => []

/-- The calls made for a document. -/
def calls (subs : Subscriptions α) (source : List Char) : List (Call α) :=
  (events source).flatMap fun e => (subs.called e).map fun label => ⟨label, e⟩

/-- What is to be noted when a document's calls are made. -/
def notices (subs : Subscriptions α) (source : List Char) : List Notice :=
  scanNotices source ++ [.parsed (scan source).length subs.size (unclosed source).length]

end Subscriptions

/-- A reader of documents. -/
structure Parser (α : Type) where
  subscriptions : Subscriptions α
  /-- The open elements; between documents, those that the last one left open. -/
  inside : OpenElements
  deriving DecidableEq, Repr

namespace Parser

variable {α : Type}

def fresh : Parser α :=
  ⟨.empty, []⟩

/-- Outside of all elements, with the same listeners. -/
def reset (parser : Parser α) : Parser α :=
  { parser with inside := [] }

/-- Reads a document, with the calls made for it. -/
def parse (parser : Parser α) (source : List Char) : Parser α × List (Call α) :=
  let parser := parser.reset
  let here : Walk := ⟨.atStart source, parser.inside⟩
  ({ parser with inside := (here.afterAll (scan source)).inside },
    (here.documentEvents source).flatMap fun e =>
      (parser.subscriptions.called e).map fun label => ⟨label, e⟩)

/-- What a parser does with a document does not depend on the documents it read before. -/
theorem parse_eq (parser : Parser α) (source : List Char) :
    parser.parse source
      = (⟨parser.subscriptions, unclosed source⟩, parser.subscriptions.calls source) := rfl

end Parser

end HtmlLint
