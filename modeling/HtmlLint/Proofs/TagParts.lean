import HtmlLint.Proofs.Layout
import HtmlLint.Proofs.Reading
import Mathlib.Data.List.TakeWhile

/-!
# The parts of a tag

A start tag is a name, gaps and attributes, and an attribute is a name that may be followed by an
equals sign and a value. The lemmas here say in which forms the readers leave these parts, how much
room they take, and by which character a tag ends.

* `readValue_cases`, `readAttribute_cases` — the forms of values and attributes.
* `Attribute.Fits` — the name and the value have their own room in the text of the attribute.
* `Token.isLeftOpen` — a tag without a `>` of its own. `Cursor.isLeftOpen_token` says that these are
  the tags about which the scanner leaves a notice.
-/

namespace HtmlLint

/-! ## Values -/

/-- The character that encloses a value written in this way. -/
def Quote.mark? : Quote → Option Char
  | double => some '"'
  | single => some '\x27'
  | _ => none

theorem Quote.mark?_eq_some {quote : Quote} {q : Char} (h : quote.mark? = some q) :
    q.utf8Size = 1 ∧ q ≠ '<' ∧ q ≠ '>' := by
  cases quote <;> cases h <;> decide

/-- Text up to the boundary of a tag has no `>` in it. -/
theorem not_mem_breakAt (s : List Char) : '>' ∉ (Text.breakAt atTagBoundary s).1 := by
  intro hmem
  rcases List.append_of_mem hmem with ⟨a, b, hsplit⟩
  have hnone := Text.breakAt_fst hsplit (List.cons_ne_nil '>' b)
  simp [atTagBoundary] at hnone

/-- The forms of a quoted value: between two quotes, or up to a boundary after an opening quote that
is never closed. -/
theorem readQuoted_cases (q : Char) (quote : Quote) (s : List Char) :
    ((readQuoted q quote s).raw = q :: ((readQuoted q quote s).value ++ [q])
        ∧ q ∉ (readQuoted q quote s).value)
      ∨ ((readQuoted q quote s).raw = q :: (readQuoted q quote s).value ∧ q ∉ s
        ∧ Text.breakAt atTagBoundary s
          = ((readQuoted q quote s).value, (readQuoted q quote s).rest)) := by
  unfold readQuoted
  split
  · refine .inl ⟨rfl, ?_⟩
    intro hmem
    have hother := List.mem_takeWhile_imp hmem
    simp at hother
  · next hdrop =>
    refine .inr ⟨rfl, ?_, rfl⟩
    intro hmem
    have hother := List.dropWhile_eq_nil_iff.1 hdrop q hmem
    simp at hother

theorem readQuoted_quote (q : Char) (quote : Quote) (s : List Char) :
    (readQuoted q quote s).quote = quote := by
  unfold readQuoted
  split <;> rfl

/-- A value is unquoted or has one of the forms of a quoted value. -/
theorem readValue_cases (s : List Char) :
    ((readValue s).quote = .unquoted ∧ (readValue s).raw = (readValue s).value
        ∧ (∀ c ∈ (readValue s).value, isUnquotedChar c = true)
        ∧ ∀ c ∈ (readValue s).value.head?, c ≠ '"' ∧ c ≠ '\x27')
      ∨ ∃ q, (readValue s).quote.mark? = some q
        ∧ (((readValue s).raw = q :: ((readValue s).value ++ [q]) ∧ q ∉ (readValue s).value)
          ∨ ∃ u, (readValue s).raw = q :: (readValue s).value ∧ q ∉ u
            ∧ Text.breakAt atTagBoundary u = ((readValue s).value, (readValue s).rest)) := by
  unfold readValue
  split
  · next s =>
    exact .inr ⟨'"', by rw [readQuoted_quote]; rfl,
      (readQuoted_cases '"' .double s).imp_right fun h => ⟨s, h⟩⟩
  · next s =>
    exact .inr ⟨'\x27', by rw [readQuoted_quote]; rfl,
      (readQuoted_cases '\x27' .single s).imp_right fun h => ⟨s, h⟩⟩
  · next hdouble hsingle =>
    refine .inl ⟨rfl, rfl, fun c hc => List.mem_takeWhile_imp hc, ?_⟩
    intro c hc
    have hfirst : s.head? = some c := by
      rw [List.head?_takeWhile] at hc
      exact (Option.filter_eq_some_iff.1 hc).1
    rcases List.head?_eq_some_iff.1 hfirst with ⟨rest, rfl⟩
    refine ⟨?_, ?_⟩
    · rintro rfl
      exact hdouble rest rfl
    · rintro rfl
      exact hsingle rest rfl

theorem not_mem_unquoted {value : List Char} (h : ∀ c ∈ value, isUnquotedChar c = true) :
    '>' ∉ value := by
  intro hmem
  have hchar := h '>' hmem
  simp [isUnquotedChar] at hchar

/-! ## Attributes -/

/-- An equals sign with the spaces around it. -/
def IsSign (s : List Char) : Prop :=
  ∃ before behind, s = before ++ '=' :: behind
    ∧ (∀ c ∈ before, isSpace c = true) ∧ ∀ c ∈ behind, isSpace c = true

namespace IsSign

variable {sign : List Char}

theorem ne_nil (h : IsSign sign) : sign ≠ [] := by
  rcases h with ⟨before, behind, rfl, -⟩
  simp

/-- Besides the sign there are only spaces. -/
theorem not_mem (h : IsSign sign) {c : Char} (hspace : isSpace c = false) (hsign : c ≠ '=') :
    c ∉ sign := by
  rcases h with ⟨before, behind, rfl, hbefore, hbehind⟩
  intro hmem
  have hc : isSpace c = true := by
    rcases List.mem_append.1 hmem with hmem | hmem
    · exact hbefore c hmem
    · exact hbehind c ((List.mem_cons.1 hmem).resolve_left hsign)
  rw [hspace] at hc
  cases hc

end IsSign

/-- The two forms of an attribute: a name alone, or a name, an equals sign between spaces and a
value. -/
theorem readAttribute_cases (o : Nat) (c : Char) (s : List Char) :
    ((readAttribute o c s).item.quote = .missing ∧ (readAttribute o c s).item.value = []
        ∧ (readAttribute o c s).item.raw = (readAttribute o c s).item.name)
      ∨ ∃ sign u, IsSign sign
        ∧ (readAttribute o c s).item.raw
          = (readAttribute o c s).item.name ++ (sign ++ (readValue u).raw)
        ∧ (readAttribute o c s).item.value = (readValue u).value
        ∧ (readAttribute o c s).item.quote = (readValue u).quote
        ∧ (readAttribute o c s).rest = (readValue u).rest := by
  have hspaces : ∀ t : List Char, ∀ d ∈ t.takeWhile isSpace, isSpace d = true :=
    fun _ _ hd => List.mem_takeWhile_imp hd
  unfold readAttribute
  dsimp only
  split
  · next t _ =>
    exact .inr ⟨(s.dropWhile (!endsAttributeName ·)).takeWhile isSpace ++ '=' :: t.takeWhile isSpace,
      t.dropWhile isSpace, ⟨_, _, rfl, hspaces _, hspaces t⟩, by simp, rfl, rfl, rfl⟩
  · exact .inl ⟨rfl, rfl, rfl⟩

/-- The name of an attribute is its first character, whatever it is, and a run of others. -/
theorem readAttribute_name (o : Nat) (c : Char) (s : List Char) :
    (readAttribute o c s).item.name = c :: s.takeWhile (!endsAttributeName ·) := by
  unfold readAttribute
  dsimp only
  split <;> rfl

namespace Attribute

def nameSpan (a : Attribute) : Span :=
  .ofText a.span.start a.name

/-- The value stands between two quotes. -/
def isEnclosed (a : Attribute) : Bool :=
  a.quote.mark?.any fun q => (q :: (a.value ++ [q])).isSuffixOf a.raw

/-- Where the value stands: at the end of the attribute, or before its closing quote. -/
def valueSpan (a : Attribute) : Span :=
  let stop := if a.isEnclosed then a.span.stop - 1 else a.span.stop
  ⟨stop - Text.byteLength a.value, stop⟩

/-- The name and the value have their own room in the text of the attribute. -/
structure Fits (a : Attribute) : Prop where
  stop : a.span.stop = a.span.start + Text.byteLength a.raw
  name : Text.byteLength a.name ≤ Text.byteLength a.raw
  unquoted : a.quote = .unquoted →
    Text.byteLength a.name + Text.byteLength a.value ≤ Text.byteLength a.raw
  enclosed : a.isEnclosed = true →
    Text.byteLength a.name + Text.byteLength a.value + 1 ≤ Text.byteLength a.raw

end Attribute

theorem readAttribute_fits (o : Nat) (c : Char) (s : List Char) :
    (readAttribute o c s).item.Fits := by
  have hspan := readAttribute_span o c s
  have hstop : (readAttribute o c s).item.span.stop
      = (readAttribute o c s).item.span.start
        + Text.byteLength (readAttribute o c s).item.raw := by
    rw [hspan]
    rfl
  rcases readAttribute_cases o c s with
    ⟨hquote, -, hraw⟩ | ⟨sign, u, hsign, hraw, hvalue, hquote, -⟩
  · refine ⟨hstop, by rw [hraw], ?_, ?_⟩
    · intro hunquoted
      rw [hquote] at hunquoted
      cases hunquoted
    · intro henclosed
      simp [Attribute.isEnclosed, hquote, Quote.mark?] at henclosed
  · have hlength := congrArg Text.byteLength hraw
    simp only [Text.byteLength_append] at hlength
    have hsize := Text.byteLength_pos hsign.ne_nil
    -- in every form the text of the value is at least as long as the value
    have hroom : Text.byteLength (readValue u).value ≤ Text.byteLength (readValue u).raw := by
      rcases readValue_cases u with ⟨-, hv, -⟩ | ⟨q, -, ⟨hv, -⟩ | ⟨-, hv, -⟩⟩
      · rw [hv]
      · rw [hv]
        simp only [Text.byteLength_cons, Text.byteLength_append]
        omega
      · rw [hv, Text.byteLength_cons]
        omega
    rw [← hvalue] at hroom
    exact ⟨hstop, by omega, fun _ => by omega, fun _ => by omega⟩

theorem readTagTail_fits (o : Nat) (s : List Char) :
    ∀ a ∈ (readTagTail o s).attributes, a.Fits := by
  fun_induction readTagTail o s with
  | case1 => exact List.forall_mem_nil _
  | case2 _ _ _ _ ih => exact ih
  | case3 => exact List.forall_mem_nil _
  | case4 => exact List.forall_mem_nil _
  | case5 _ _ _ _ _ ih => exact ih
  | case6 => exact List.forall_mem_nil _
  | case7 o c s _ _ _ _ read ih =>
    intro a ha
    rcases List.mem_cons.1 ha with rfl | ha
    · exact readAttribute_fits o c s
    · exact ih a ha

/-! ## How a tag ends -/

/-- The tag ends without a `>`. -/
def TagEnding.isOpen : TagEnding → Bool
  | cut | unfinished => true
  | closed | selfClosed => false

/-- After a tag that ends without a `>`, other markup opens or the document ends. -/
theorem readTagTail_rest {o : Nat} {s : List Char} (h : (readTagTail o s).ending.isOpen = true) :
    (readTagTail o s).rest = [] ∨ opensMarkup (readTagTail o s).rest = true := by
  fun_induction readTagTail o s with
  | case1 => exact .inl rfl
  | case2 _ _ _ _ ih => exact ih h
  | case3 => cases h
  | case4 => cases h
  | case5 _ _ _ _ _ ih => exact ih h
  | case6 _ _ _ _ _ _ hmarkup => exact .inr hmarkup
  | case7 _ _ _ _ _ _ _ _ ih => exact ih h

/-- Text in front that does not end in `>` does not decide whether the whole does. -/
theorem getLast?_append_close {x : List Char} (hx : x.getLast? ≠ some '>') (y : List Char) :
    ((x ++ y).getLast? == some '>') = (y.getLast? == some '>') := by
  rw [List.getLast?_append]
  cases y.getLast? with
  | none => simpa using hx
  | some c => rfl

theorem getLast?_ne_close {x : List Char} (hx : '>' ∉ x) : x.getLast? ≠ some '>' := by
  intro hlast
  exact hx (List.mem_of_getLast? hlast)

/-- An attribute does not end in `>`. -/
theorem readAttribute_getLast? (o : Nat) {c : Char} (hc : c ≠ '>') (s : List Char) :
    (readAttribute o c s).item.raw.getLast? ≠ some '>' := by
  have hname : '>' ∉ (readAttribute o c s).item.name := by
    rw [readAttribute_name]
    intro hmem
    rcases List.mem_cons.1 hmem with hfirst | hlater
    · exact hc hfirst.symm
    · have hends := List.mem_takeWhile_imp hlater
      simp [endsAttributeName, endsTagName] at hends
  rcases readAttribute_cases o c s with ⟨-, -, hraw⟩ | ⟨sign, u, hsign, hraw, -⟩
  · rw [hraw]
    exact getLast?_ne_close hname
  · have hplain : '>' ∉ sign := hsign.not_mem rfl (by decide)
    have hvalue : (readValue u).raw.getLast? ≠ some '>' := by
      rcases readValue_cases u with ⟨-, hv, hchars, -⟩ | ⟨q, hmark, ⟨hv, -⟩ | ⟨w, hv, -, hw⟩⟩
      · rw [hv]
        exact getLast?_ne_close (not_mem_unquoted hchars)
      · have hq := (Quote.mark?_eq_some hmark).2.2
        rw [hv, ← List.cons_append, List.getLast?_concat]
        simpa using hq
      · have hq := (Quote.mark?_eq_some hmark).2.2
        have hnone := not_mem_breakAt w
        rw [hw] at hnone
        apply getLast?_ne_close
        rw [hv]
        simpa [hq.symm] using hnone
    intro hlast
    have hrest := getLast?_append_close (getLast?_ne_close hname) (sign ++ (readValue u).raw)
    rw [getLast?_append_close (getLast?_ne_close hplain), ← hraw, hlast] at hrest
    exact hvalue (by simpa using hrest.symm)

theorem readTagTail_getLast? (o : Nat) (s : List Char) :
    ((readTagTail o s).raw.getLast? == some '>') = !(readTagTail o s).ending.isOpen := by
  fun_induction readTagTail o s with
  | case1 => rfl
  | case2 o c s hspace ih =>
    have hc : [c].getLast? ≠ some '>' := by
      rintro h
      cases h
      cases hspace
    exact (getLast?_append_close hc _).trans ih
  | case3 => rfl
  | case4 => rfl
  | case5 o s _ _ _ ih =>
    have hslash : ['/'].getLast? ≠ some '>' := by decide
    exact (getLast?_append_close hslash _).trans ih
  | case6 => rfl
  | case7 o c s _ hclosed _ _ read ih =>
    exact (getLast?_append_close (readAttribute_getLast? o hclosed s) _).trans ih

/-- The two forms of an end tag: up to its `>`, or up to other markup or the end of the document. -/
theorem readEndTag_cases (o : Nat) (s : List Char) :
    let name := s.takeWhile (!endsTagName ·)
    let split := Text.breakAt atTagBoundary (s.dropWhile (!endsTagName ·))
    readEndTag o s
        = ⟨.endTag name, Opening.endTag.text ++ (name ++ split.1) ++ ['>'], split.2.tail, []⟩
        ∧ split.2 = '>' :: split.2.tail
      ∨ readEndTag o s
        = ⟨.endTag name, Opening.endTag.text ++ (name ++ split.1), split.2,
            [.openEndTag o name]⟩
        ∧ (split.2 = [] ∨ opensMarkup split.2 = true) := by
  intro name split
  cases hrest : split.2 with
  | nil => exact .inr ⟨by simp only [readEndTag]; rw [hrest], .inl rfl⟩
  | cons c rest =>
    by_cases hc : c = '>'
    · subst hc
      exact .inl ⟨by simp only [readEndTag]; rw [hrest]; rfl, rfl⟩
    · right
      have hboundary := Text.breakAt_snd atTagBoundary (s.dropWhile (!endsTagName ·))
      have hopens : opensMarkup (c :: rest) = true := by
        simpa [atTagBoundary, split, hrest, hc] using hboundary
      refine ⟨?_, .inr hopens⟩
      have hopen := readEndTag_open o (s := s) (by simpa [split, hrest] using hc)
      rw [hopen]
      simp [name, split, hrest]

theorem not_mem_tagName (s : List Char) : '>' ∉ s.takeWhile (!endsTagName ·) := by
  intro hmem
  have hends := List.mem_takeWhile_imp hmem
  simp [endsTagName] at hends

theorem readStartTag_getLast? (o : Nat) (s : List Char) :
    ((readStartTag o s).raw.getLast? == some '>')
      = !(readTagTail (o + 1 + Text.byteLength (s.takeWhile (!endsTagName ·)))
          (s.dropWhile (!endsTagName ·))).ending.isOpen := by
  have hlead : '>' ∉ '<' :: s.takeWhile (!endsTagName ·) := by
    simpa using not_mem_tagName s
  calc
    ((readStartTag o s).raw.getLast? == some '>')
        = ((('<' :: s.takeWhile (!endsTagName ·))
            ++ (readTagTail (o + 1 + Text.byteLength (s.takeWhile (!endsTagName ·)))
              (s.dropWhile (!endsTagName ·))).raw).getLast? == some '>') := rfl
    _ = !(readTagTail (o + 1 + Text.byteLength (s.takeWhile (!endsTagName ·)))
          (s.dropWhile (!endsTagName ·))).ending.isOpen := by
        rw [getLast?_append_close (getLast?_ne_close hlead), readTagTail_getLast?]

def Token.Kind.isTag : Token.Kind → Bool
  | startTag .. | endTag _ => true
  | _ => false

theorem commentKind_isTag (data : List Char) : (commentKind data).isTag = false := by
  unfold commentKind
  split <;> rfl

/-- The token is a tag that was not ended by a `>` of its own. -/
def Token.isLeftOpen (t : Token) : Bool :=
  t.kind.isTag && t.raw.getLast? != some '>'

/-- The notice is about a tag without its `>`. -/
def Notice.isOpenTag : Notice → Bool
  | openStartTag .. | cutStartTag .. | openEndTag .. => true
  | _ => false

theorem readTagTail_notices (o : Nat) (s : List Char) :
    (readTagTail o s).notices.any Notice.isOpenTag = false := by
  fun_induction readTagTail o s with
  | case1 => rfl
  | case2 _ _ _ _ ih => exact ih
  | case3 => rfl
  | case4 => rfl
  | case5 _ _ _ _ _ ih => exact ih
  | case6 => rfl
  | case7 o c s _ _ _ _ read ih =>
    have hread : read.notices.any Notice.isOpenTag = false := by
      simp only [read, readAttribute]
      split
      · dsimp only
        split <;> rfl
      · rfl
    simp only [TagTail.afterAttribute, List.any_append, hread, ih, Bool.or_self]

theorem Enclosed.lexeme_notices (read : Enclosed) (op : Opening) (kind : List Char → Token.Kind)
    {unclosed : Notice} (h : unclosed.isOpenTag = false) :
    (read.lexeme op kind unclosed).notices.any Notice.isOpenTag = false := by
  unfold Enclosed.lexeme
  split <;> simp [h]

/-- The tags that are left open are those about which the scanner leaves a notice. -/
theorem Cursor.isLeftOpen_token (here : Cursor) :
    here.token.isLeftOpen = here.lexeme.notices.any Notice.isOpenTag := by
  have htoken : here.token.isLeftOpen
      = (here.lexeme.kind.isTag && here.lexeme.raw.getLast? != some '>') := rfl
  rw [htoken]
  rcases here.lexeme_cases with ⟨element, hread⟩ | ⟨op, s, -, hread⟩ | ⟨-, hread⟩
  · rw [hread, readRawText]
    split <;> rfl
  · rw [hread]
    cases op with
    | startTag =>
      have hlast := readStartTag_getLast? here.offset s
      -- of the notices only the last one, about the ending, counts
      simp only [readMarkup, bne, hlast, Bool.not_not]
      simp only [readStartTag, List.any_append, readTagTail_notices, Bool.false_or,
        Token.Kind.isTag, Bool.true_and]
      split <;> simp [TagEnding.isOpen, Notice.isOpenTag, *]
    | endTag =>
      have hlead : '>' ∉ Opening.endTag.text ++ (s.takeWhile (!endsTagName ·)
          ++ (Text.breakAt atTagBoundary (s.dropWhile (!endsTagName ·))).1) := by
        simp [Opening.text, not_mem_tagName s, not_mem_breakAt]
      rcases readEndTag_cases here.offset s with ⟨hform, -⟩ | ⟨hform, -⟩
      · simp [readMarkup, hform]
      · have hopen := bne_iff_ne.2 (getLast?_ne_close hlead)
        simp only [readMarkup, hform, hopen]
        rfl
    | comment =>
      simp only [readMarkup]
      rw [Enclosed.lexeme_notices _ _ _ rfl]
      simp only [Enclosed.lexeme, commentKind_isTag, Bool.false_and]
    | _ =>
      simp only [readMarkup, readMarkup.bounded]
      rw [Enclosed.lexeme_notices _ _ _ rfl]
      rfl
  · rw [hread]
    cases here.rest <;> rfl

end HtmlLint
