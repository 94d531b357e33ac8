import HtmlLint.Diagnostic
import HtmlLint.Event.Subscriptions

/-!
# Rules

A rule listens to events and reports findings. Its listeners share a state of the rule's own, which
starts afresh with every document; they see nothing else but the event, and what they find is
reported under the rule's id. The library's rules need no more. A listener that reports under any
other id, or looks at what was reported before, is not a `Listener`; but which listeners are called,
with which events and in which order, is settled by the subscriptions alone
(`Subscriptions.calls`), so what holds of the calls holds whatever the listeners do.

A rule may refuse to run after it has subscribed its listeners.
-/

namespace HtmlLint

/-- What a rule does with the events of a target. -/
structure Listener (σ : Type) where
  target : Target
  react : Event → σ → σ × List Finding

structure Rule where
  id : String
  description : String
  /-- What the rule remembers while it reads a document. -/
  State : Type
  initial : State
  listeners : List (Listener State)
  /-- Why the rule does not run. -/
  refusal : Option String := none
  /-- The id under which the refusal complains, the rule's own unless it says otherwise. -/
  refusalId : String := id

/-- A rule that did not run, and why. -/
structure Failure where
  rule : String
  reason : String
  deriving DecidableEq, Repr

def Failure.toJson (failure : Failure) : Json :=
  .record [("rule", .ofString failure.rule), ("reason", .ofString failure.reason)]

namespace Rule

/-- The failure of a rule that refuses to run. -/
def failure (rule : Rule) (reason : String) : Failure :=
  ⟨rule.id, "rule `" ++ rule.refusalId ++ "` failed to initialise: " ++ reason⟩

/-- A rule without a state. -/
def stateless (id description : String)
    (listeners : List (Target × (Event → List Finding))) : Rule :=
  { id
    description
    State := Unit
    initial := ()
    listeners := listeners.map fun (target, find) => ⟨target, fun e _ => ((), find e)⟩ }

end Rule

end HtmlLint
