import HtmlLint.Json.Basic
import HtmlLint.Text.Bytes

/-!
# Spans

A span names a piece of a document by the byte offsets of its two ends. A span may be built with
its ends in the wrong order or off the document's boundaries; its slice is then empty.
-/

namespace HtmlLint

/-- The bytes from offset `start` up to, and not including, offset `stop`. -/
structure Span where
  start : Nat
  stop : Nat
  deriving DecidableEq, Repr, Inhabited

namespace Span

/-- The span from `start` to `stop`, or the empty span at `start` when `stop` lies before it. -/
def between (start stop : Nat) : Span :=
  ⟨start, max start stop⟩

/-- The span of `s` when it starts at offset `start`. -/
def ofText (start : Nat) (s : List Char) : Span :=
  ⟨start, start + Text.byteLength s⟩

/-- The number of bytes covered. -/
def length (span : Span) : Nat :=
  span.stop - span.start

/-- Nothing is covered. -/
def isEmpty (span : Span) : Bool :=
  span.length == 0

/-- The characters of `source` that the span covers; empty when the ends are in the wrong order,
past the end, or inside a character. -/
def slice (span : Span) (source : List Char) : List Char :=
  if span.start ≤ span.stop && Text.isBoundary source span.start
      && Text.isBoundary source span.stop then
    Text.takeBytes span.length (Text.dropBytes span.start source)
  else []

def toJson (span : Span) : Json :=
  .record [("start", .ofNat span.start), ("end", .ofNat span.stop)]

/-- The slice of a piece's own span is the piece. -/
theorem slice_ofText (before piece after : List Char) :
    (ofText (Text.byteLength before) piece).slice (before ++ (piece ++ after)) = piece := by
  have startsAt : Text.isBoundary (before ++ (piece ++ after)) (Text.byteLength before) = true :=
    Text.isBoundary_iff.2 ⟨before, piece ++ after, rfl, rfl⟩
  have stopsAt : Text.isBoundary (before ++ (piece ++ after))
      (Text.byteLength before + Text.byteLength piece) = true :=
    Text.isBoundary_iff.2 ⟨before ++ piece, after, by simp, by simp⟩
  simp [slice, ofText, length, startsAt, stopsAt]

end Span

end HtmlLint
