import HtmlLint.Json.Basic
import HtmlLint.Text.Bytes

/-!
# Locations

A location is a line and a column, both counted from one; a column counts characters. A line ends
with a line feed and nothing else, so a carriage return takes up a column.

A `Locator` answers the location of any offset of one document. It moves on from its last answer
when the next offset is not before it, and starts over otherwise; the answers do not depend on
the order of the questions.
-/

namespace HtmlLint

/-- A line and a column of a document. -/
structure Location where
  line : Nat
  column : Nat
  deriving DecidableEq, Repr

namespace Location

/-- Where a document starts. -/
def start : Location :=
  ⟨1, 1⟩

instance : Inhabited Location :=
  ⟨start⟩

/-- The location after one more character. -/
def next (here : Location) (c : Char) : Location :=
  if c = '\n' then ⟨here.line + 1, 1⟩ else ⟨here.line, here.column + 1⟩

/-- The location after the text `s`. -/
def after (here : Location) (s : List Char) : Location :=
  s.foldl next here

/-- Locations are ordered by line, then by column. -/
instance : Ord Location :=
  ⟨fun a b => (compare a.line b.line).then (compare a.column b.column)⟩

/-- A location as `line:column`. -/
def text (here : Location) : String :=
  toString here.line ++ ":" ++ toString here.column

def toJson (here : Location) : Json :=
  .record [("line", .ofNat here.line), ("column", .ofNat here.column)]

@[simp]
theorem after_nil (here : Location) : here.after [] = here := rfl

@[simp]
theorem after_cons (here : Location) (c : Char) (s : List Char) :
    here.after (c :: s) = (here.next c).after s := rfl

@[simp]
theorem after_append (here : Location) (s t : List Char) :
    here.after (s ++ t) = (here.after s).after t := by
  simp [after]

end Location

/-- Answers locations of offsets in `source`; `ahead` is the part of `source` from `offset` on, and
`location` is where it starts. -/
structure Locator where
  source : List Char
  offset : Nat
  ahead : List Char
  location : Location

namespace Locator

/-- A locator at the start of `source`. -/
def atStart (source : List Char) : Locator :=
  ⟨source, 0, source, .start⟩

/-- Moves forward to the last boundary not after `target`. -/
def forward (here : Locator) (target : Nat) : Locator :=
  go (target - here.offset) here.offset here.location here.ahead
where
  /-- Passes the characters that fit in `budget` bytes. -/
  go (budget offset : Nat) (location : Location) : List Char → Locator
    | [] => ⟨here.source, offset, [], location⟩
    | c :: s =>
      if c.utf8Size ≤ budget then
        go (budget - c.utf8Size) (offset + c.utf8Size) (location.next c) s
      else ⟨here.source, offset, c :: s, location⟩

/-- Moves to the last boundary not after `target`, whose location is then `location`. -/
def locate (here : Locator) (target : Nat) : Locator :=
  if target < here.offset then (atStart here.source).forward target else here.forward target

theorem forward_go (here : Locator) (budget offset : Nat) (location : Location)
    (ahead : List Char) :
    forward.go here budget offset location ahead =
      ⟨here.source, offset + Text.byteLength (Text.takeBytes budget ahead),
        Text.dropBytes budget ahead, location.after (Text.takeBytes budget ahead)⟩ := by
  induction ahead generalizing budget offset location with
  | nil => rfl
  | cons c s ih =>
    by_cases h : c.utf8Size ≤ budget
    · simp [forward.go, Text.takeBytes, Text.dropBytes, h, ih, Nat.add_assoc]
    · simp [forward.go, Text.takeBytes, Text.dropBytes, h]

/-- Moving forward passes the longest run of characters that ends by `target`. -/
theorem forward_eq (here : Locator) (target : Nat) :
    here.forward target =
      ⟨here.source,
        here.offset + Text.byteLength (Text.takeBytes (target - here.offset) here.ahead),
        Text.dropBytes (target - here.offset) here.ahead,
        here.location.after (Text.takeBytes (target - here.offset) here.ahead)⟩ :=
  forward_go ..

end Locator

end HtmlLint
