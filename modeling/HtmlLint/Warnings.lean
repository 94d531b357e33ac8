import HtmlLint.Notice

/-!
# Warnings given once

A warning belongs to a component and has a message. It is given the first time only; what counts as
the same warning is its one-line form, the component in brackets before the message.
-/

namespace HtmlLint

/-- The one-line forms of the warnings given so far, latest first. -/
structure Warnings where
  given : List String

namespace Warnings

/-- No warning was given yet. -/
def empty : Warnings :=
  ⟨[]⟩

/-- The one-line form of a warning. -/
def line (component message : String) : String :=
  "[" ++ component ++ "] " ++ message

/-- Gives the warning unless one with the same one-line form was given before. -/
def announce (before : Warnings) (component message : String) : Warnings × Option Notice :=
  if before.given.contains (line component message) then (before, none)
  else (⟨line component message :: before.given⟩, some (.warning component message))

/-- Gives warnings of one component, one after the other. -/
def announceAll (before : Warnings) (component : String) : List String → Warnings × List Notice
  | [] => (before, [])
  | message :: messages =>
    let (after, notice) := before.announce component message
    let (last, notices) := after.announceAll component messages
    (last, notice.toList ++ notices)

end Warnings

end HtmlLint
