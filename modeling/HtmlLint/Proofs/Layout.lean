import HtmlLint.Proofs.Tiling
import Mathlib.Data.List.Pairwise

/-!
# Where attributes lie in their tag

The attributes of a start tag lie one after the other in its text, and the span of each says where.
`LaidOut` states this for any text that starts at a given offset; every reader of tags keeps it.
-/

namespace HtmlLint

/-- The attributes lie, in order and apart, in the text `raw` that starts at `offset`. -/
def LaidOut : Nat → List Attribute → List Char → Prop
  | _, [], _ => True
  | offset, a :: attributes, raw =>
    ∃ gap rest, raw = gap ++ (a.raw ++ rest)
      ∧ a.span = .ofText (offset + Text.byteLength gap) a.raw
      ∧ LaidOut a.span.stop attributes rest

namespace LaidOut

variable {offset : Nat} {attributes : List Attribute} {raw : List Char}

/-- More text in front moves the start of the text. -/
theorem prepend (lead : List Char) (h : LaidOut (offset + Text.byteLength lead) attributes raw) :
    LaidOut offset attributes (lead ++ raw) := by
  cases attributes with
  | nil => trivial
  | cons a attributes =>
    rcases h with ⟨gap, rest, hraw, hspan, hrest⟩
    refine ⟨lead ++ gap, rest, ?_, ?_, hrest⟩
    · rw [hraw, List.append_assoc]
    · rw [hspan, Text.byteLength_append, Nat.add_assoc]

/-- Each attribute is a piece of the text, where its span says. -/
theorem exists_piece (h : LaidOut offset attributes raw) {a : Attribute} (ha : a ∈ attributes) :
    ∃ lead rest, raw = lead ++ (a.raw ++ rest)
      ∧ a.span = .ofText (offset + Text.byteLength lead) a.raw := by
  induction attributes generalizing offset raw with
  | nil => cases ha
  | cons b attributes ih =>
    rcases h with ⟨gap, rest, hraw, hspan, hrest⟩
    rcases List.mem_cons.1 ha with rfl | ha
    · exact ⟨gap, rest, hraw, hspan⟩
    · rcases ih hrest ha with ⟨lead, tail, hrest', hspan'⟩
      refine ⟨gap ++ (b.raw ++ lead), tail, ?_, ?_⟩
      · rw [hraw, hrest']
        simp
      · rw [hspan', hspan]
        simp [Span.ofText, Nat.add_assoc]

/-- The attributes stand apart, in the order of the list. -/
theorem pairwise (h : LaidOut offset attributes raw) :
    attributes.Pairwise fun a b => a.span.stop ≤ b.span.start := by
  induction attributes generalizing offset raw with
  | nil => exact .nil
  | cons a attributes ih =>
    rcases h with ⟨gap, rest, -, -, hrest⟩
    refine List.pairwise_cons.2 ⟨?_, ih hrest⟩
    intro b hb
    rcases hrest.exists_piece hb with ⟨lead, tail, -, hspan⟩
    simp [hspan, Span.ofText]

/-- The attributes stay inside the text. -/
theorem inside (h : LaidOut offset attributes raw) {a : Attribute} (ha : a ∈ attributes) :
    offset ≤ a.span.start ∧ a.span.stop ≤ offset + Text.byteLength raw := by
  rcases h.exists_piece ha with ⟨lead, rest, hraw, hspan⟩
  rw [hspan, hraw]
  simp only [Span.ofText, Text.byteLength_append]
  omega

/-- Two different attributes stand apart. -/
theorem apart (h : LaidOut offset attributes raw) {a b : Attribute} (ha : a ∈ attributes)
    (hb : b ∈ attributes) :
    a = b ∨ a.span.stop ≤ b.span.start ∨ b.span.stop ≤ a.span.start := by
  let Apart (a b : Attribute) : Prop :=
    a = b ∨ a.span.stop ≤ b.span.start ∨ b.span.stop ≤ a.span.start
  have hforward : attributes.Pairwise Apart := h.pairwise.imp fun hab => Or.inr (.inl hab)
  have hbackward : attributes.Pairwise (flip Apart) := h.pairwise.imp fun hab => Or.inr (.inr hab)
  have hself : ∀ a ∈ attributes, Apart a a := fun _ _ => .inl rfl
  exact hforward.forall_of_forall_of_flip hself hbackward ha hb

end LaidOut

/-! ## Readers -/

theorem utf8Size_of_isSpace {c : Char} (h : isSpace c = true) : c.utf8Size = 1 := by
  simp only [isSpace, Bool.or_eq_true, beq_iff_eq] at h
  rcases h with (((rfl | rfl) | rfl) | rfl) | rfl <;> decide

theorem readAttribute_span (offset : Nat) (c : Char) (s : List Char) :
    (readAttribute offset c s).item.span = .ofText offset (readAttribute offset c s).item.raw := by
  unfold readAttribute
  dsimp only
  split <;> rfl

theorem readTagTail_laidOut (offset : Nat) (s : List Char) :
    LaidOut offset (readTagTail offset s).attributes (readTagTail offset s).raw := by
  fun_induction readTagTail offset s with
  | case1 => trivial
  | case2 offset c s hspace ih =>
    have hlength : Text.byteLength [c] = 1 := by simp [utf8Size_of_isSpace hspace]
    refine LaidOut.prepend [c] ?_
    rw [hlength]
    exact ih
  | case3 => trivial
  | case4 => trivial
  | case5 offset s _ _ _ ih => exact LaidOut.prepend ['/'] ih
  | case6 => trivial
  | case7 offset c s hspace hclose hslash hmarkup read ih =>
    have hspan : read.item.span = .ofText offset read.item.raw := readAttribute_span offset c s
    exact ⟨[], _, rfl, hspan, ih⟩

/-- The attributes of a token that is a start tag; other tokens have none. -/
def Token.Kind.attributes : Token.Kind → List Attribute
  | .startTag _ attributes _ => attributes
  | _ => []

theorem readStartTag_laidOut (offset : Nat) (s : List Char) :
    LaidOut offset (readStartTag offset s).kind.attributes (readStartTag offset s).raw := by
  have htail := readTagTail_laidOut
    (offset + 1 + Text.byteLength (s.takeWhile (!endsTagName ·)))
    (s.dropWhile (!endsTagName ·))
  refine LaidOut.prepend Opening.startTag.text (LaidOut.prepend _ ?_)
  exact htail

theorem readToken_laidOut (offset : Nat) (s : List Char) :
    LaidOut offset (readToken offset s).kind.attributes (readToken offset s).raw := by
  unfold readToken
  split
  · next o rest hopen =>
    cases o with
    | startTag => exact readStartTag_laidOut offset rest
    | endTag =>
      simp only [readMarkup, readEndTag]
      split <;> trivial
    | comment =>
      simp only [readMarkup, Enclosed.lexeme, commentKind]
      split <;> trivial
    | _ => trivial
  · cases s <;> trivial

/-- In every token the attributes are laid out from the token's start. -/
theorem Cursor.next?_laidOut {here : Cursor} {step : Step} (h : here.next? = some step) :
    LaidOut step.token.span.start step.token.kind.attributes step.token.raw := by
  have hlexeme : LaidOut here.offset here.lexeme.kind.attributes here.lexeme.raw := by
    unfold lexeme
    split
    · exact readToken_laidOut ..
    · dsimp only
      split
      · exact readToken_laidOut ..
      · trivial
  unfold next? at h
  split at h
  · cases h
  · cases h
    exact hlexeme

end HtmlLint
