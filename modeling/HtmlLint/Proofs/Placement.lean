import HtmlLint.Span

/-!
# Texts at their places

A text stands in a document after some other text, and its span says where. Slicing the document by
the span gives the text back, and cutting the text is cutting the document.
-/

namespace HtmlLint

/-- Offset `n` lies in the span. -/
def Span.Contains (span : Span) (n : Nat) : Prop :=
  span.start ≤ n ∧ n < span.stop

/-- `raw` stands in `source` where `span` says, after the text `before`. -/
structure Span.Covers (span : Span) (source before raw : List Char) : Prop where
  split : ∃ after, source = before ++ (raw ++ after)
  span : span = .ofText (Text.byteLength before) raw

/-- An offset not before the end of the text `x` splits what follows it. -/
theorem Text.exists_split_behind {x s a b : List Char} (h : x ++ s = a ++ b)
    (hle : byteLength x ≤ byteLength a) : ∃ lead, a = x ++ lead ∧ s = lead ++ b := by
  rcases List.append_eq_append_iff.1 h with ⟨lead, ha, hb⟩ | ⟨d, rfl, rfl⟩
  · exact ⟨lead, ha, hb⟩
  · -- nothing of `x` is left after `a`
    rw [byteLength_append] at hle
    have hlength := length_le_byteLength d
    obtain rfl : d = [] := List.length_eq_zero_iff.1 (by omega)
    exact ⟨[], by simp, by simp⟩

/-- An offset in the text `x`, which stands between two others, splits it. -/
theorem Text.exists_split_within {before x after a b : List Char}
    (h : before ++ (x ++ after) = a ++ b) (hfrom : byteLength before ≤ byteLength a)
    (hto : byteLength a < byteLength before + byteLength x) :
    ∃ lead rest, x = lead ++ rest ∧ rest ≠ [] ∧ a = before ++ lead ∧ b = rest ++ after := by
  rcases exists_split_behind h hfrom with ⟨lead, rfl, htail⟩
  rw [byteLength_append] at hto
  rcases List.append_eq_append_iff.1 htail with ⟨d, rfl, -⟩ | ⟨rest, rfl, rfl⟩
  · rw [byteLength_append] at hto
    omega
  · refine ⟨lead, rest, rfl, ?_, rfl, rfl⟩
    rintro rfl
    simp at hto

namespace Span.Covers

variable {span : Span} {source before raw : List Char}

theorem slice_eq (h : span.Covers source before raw) : span.slice source = raw := by
  rcases h with ⟨⟨after, hsource⟩, hspan⟩
  rw [hspan, hsource]
  exact Span.slice_ofText before raw after

theorem start_eq (h : span.Covers source before raw) : span.start = Text.byteLength before := by
  rw [h.span]
  rfl

theorem stop_eq (h : span.Covers source before raw) :
    span.stop = span.start + Text.byteLength raw := by
  rw [h.span]
  rfl

theorem stop_le (h : span.Covers source before raw) : span.stop ≤ Text.byteLength source := by
  rcases h.split with ⟨after, hsource⟩
  rw [h.stop_eq, h.start_eq, hsource, Text.byteLength_append, Text.byteLength_append]
  omega

/-- Both ends of the span are boundaries, in the right order. -/
theorem boundaries (h : span.Covers source before raw) :
    span.start ≤ span.stop ∧ Text.isBoundary source span.start = true
      ∧ Text.isBoundary source span.stop = true := by
  rcases h with ⟨⟨after, hsource⟩, hspan⟩
  refine ⟨?_, ?_, ?_⟩
  · simp [hspan, Span.ofText]
  · exact Text.isBoundary_iff.2 ⟨before, raw ++ after, hsource, by simp [hspan, Span.ofText]⟩
  · refine Text.isBoundary_iff.2 ⟨before ++ raw, after, ?_, ?_⟩
    · rw [hsource, List.append_assoc]
    · simp [hspan, Span.ofText]

theorem takeBytes_start (h : span.Covers source before raw) :
    Text.takeBytes span.start source = before := by
  rcases h.split with ⟨after, hsource⟩
  rw [h.start_eq, hsource]
  exact Text.takeBytes_byteLength_append before (raw ++ after)

/-- Cutting the text of a span is cutting the document. -/
theorem takeBytes_within (h : span.Covers source before raw) (k : Nat) :
    Text.takeBytes (span.start + Text.floorBoundary raw k) source
      = before ++ Text.takeBytes k raw := by
  rcases h.split with ⟨after, hsource⟩
  have hraw := Text.takeBytes_append_dropBytes k raw
  have hshape : source = (before ++ Text.takeBytes k raw) ++ (Text.dropBytes k raw ++ after) := by
    calc
      source = before ++ ((Text.takeBytes k raw ++ Text.dropBytes k raw) ++ after) := by
        rw [hraw, hsource]
      _ = (before ++ Text.takeBytes k raw) ++ (Text.dropBytes k raw ++ after) := by
        simp only [List.append_assoc]
  have hlength : span.start + Text.floorBoundary raw k
      = Text.byteLength (before ++ Text.takeBytes k raw) := by
    rw [h.start_eq, Text.byteLength_append, Text.floorBoundary]
  rw [hlength, hshape]
  exact Text.takeBytes_byteLength_append _ _

/-- A piece of the text of a span has a span of its own. -/
theorem piece (h : span.Covers source before raw) {inner : Span} {lead piece rest : List Char}
    (hraw : raw = lead ++ (piece ++ rest))
    (hinner : inner = .ofText (span.start + Text.byteLength lead) piece) :
    inner.Covers source (before ++ lead) piece := by
  rcases h.split with ⟨after, hsource⟩
  refine ⟨⟨rest ++ after, ?_⟩, ?_⟩
  · rw [hsource, hraw]
    simp
  · rw [hinner, h.start_eq, Text.byteLength_append]

end Span.Covers

end HtmlLint
