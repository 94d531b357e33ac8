import HtmlLint.Proofs.TagParts

/-!
# Where a tag that is left open ends

A tag without its `>` ends where other markup opens or with the document. It need not end at the
first such place: the readers look for markup between the parts of a tag, not inside them. A name or
an unquoted value runs on over a `<`, and so does a value between two quotes.

* `MarkupOnlyAt` — the places of a text at which markup opens, as a property of offsets. It is put
  together from the parts of the text, one lemma for each reader.
* `Token.Unwatched` — the offsets of a tag at which nobody looks for markup.
* `Token.CutAtMarkup` — no markup opens in the tag, values between two quotes apart.

`leftOpen_cutAtMarkup_iff` says that a tag left open is cut at the first markup exactly if none
opens in its unwatched parts.
-/

namespace HtmlLint

/-- Markup opens at offset `n` of the document. -/
def opensAt (document : List Char) (n : Nat) : Bool :=
  Text.isBoundary document n && opensMarkup (Text.dropBytes n document)

/-- Scanners answer this question for words. -/
theorem Scanner.opensMarkupAt_eq (here : Scanner) (n : UInt64) :
    here.opensMarkupAt n = opensAt here.source n.toNat := rfl

theorem opensAt_iff {document : List Char} {n : Nat} :
    opensAt document n = true ↔
      ∃ a b, document = a ++ b ∧ Text.byteLength a = n ∧ opensMarkup b = true := by
  constructor
  · intro h
    rcases Bool.and_eq_true_iff.1 h with ⟨hboundary, hopens⟩
    rcases Text.isBoundary_iff.1 hboundary with ⟨a, b, rfl, rfl⟩
    rw [Text.dropBytes_byteLength_append] at hopens
    exact ⟨a, b, rfl, rfl, hopens⟩
  · rintro ⟨a, b, rfl, rfl, hopens⟩
    have hboundary := Text.isBoundary_iff.2 ⟨a, b, rfl, rfl⟩
    simp [opensAt, hboundary, hopens]

/-! ## Parts of a tag -/

namespace Attribute

/-- Offset `n` lies in a value between two quotes. -/
def Shelters (a : Attribute) (n : Nat) : Prop :=
  a.isEnclosed = true ∧ a.valueSpan.Contains n

/-- Offset `n` lies in the name or in an unquoted value. -/
def Unwatched (a : Attribute) (n : Nat) : Prop :=
  a.nameSpan.Contains n ∨ a.quote = .unquoted ∧ a.valueSpan.Contains n

end Attribute

namespace Token

/-- Where the name of a tag stands. -/
def nameSpan (t : Token) : Span :=
  match t.kind with
  | .startTag name .. => .ofText (t.span.start + 1) name
  | .endTag name => .ofText (t.span.start + 2) name
  | _ => ⟨t.span.start, t.span.start⟩

/-- Offset `n` lies in an attribute value between two quotes. -/
def Shelters (t : Token) (n : Nat) : Prop :=
  ∃ a ∈ t.kind.attributes, a.Shelters n

/-- Offset `n` lies in the name of the tag, in the name of an attribute or in an unquoted value. -/
def Unwatched (t : Token) (n : Nat) : Prop :=
  t.nameSpan.Contains n ∨ ∃ a ∈ t.kind.attributes, a.Unwatched n

/-- After the first byte of the token no markup opens in it, values between two quotes apart. -/
def CutAtMarkup (document : List Char) (t : Token) : Prop :=
  ∀ n, t.span.start < n → n < t.span.stop → ¬ t.Shelters n → opensAt document n = false

end Token

/-! ## Places where markup opens -/

/-- Wherever markup opens in the text `raw`, which starts at offset `o` and is followed by `rest`,
the offset has the property. -/
def MarkupOnlyAt (p : Nat → Prop) (o : Nat) (raw rest : List Char) : Prop :=
  ∀ lead b, raw = lead ++ b → b ≠ [] → opensMarkup (b ++ rest) = true →
    p (o + Text.byteLength lead)

namespace MarkupOnlyAt

variable {p q : Nat → Prop} {o : Nat} {x y rest : List Char}

theorem nil : MarkupOnlyAt p o [] rest := by
  intro lead b hsplit hne
  exact absurd (List.append_eq_nil_iff.1 hsplit.symm).2 hne

theorem append (hx : MarkupOnlyAt p o x (y ++ rest))
    (hy : MarkupOnlyAt p (o + Text.byteLength x) y rest) : MarkupOnlyAt p o (x ++ y) rest := by
  intro lead b hsplit hne hopens
  rcases List.append_eq_append_iff.1 hsplit with ⟨d, rfl, rfl⟩ | ⟨d, rfl, rfl⟩
  · have hplace := hy d b rfl hne hopens
    rwa [Nat.add_assoc, ← Text.byteLength_append] at hplace
  · cases d with
    | nil =>
      -- the place is just between the two parts
      have hplace := hy [] y rfl hne hopens
      simpa using hplace
    | cons c d =>
      rw [List.append_assoc] at hopens
      exact hx lead (c :: d) rfl (List.cons_ne_nil c d) hopens

/-- Text without `<` has no such place. -/
theorem of_not_mem (h : '<' ∉ x) : MarkupOnlyAt p o x rest := by
  intro lead b hsplit hne hopens
  rcases List.exists_cons_of_ne_nil hne with ⟨c, b, rfl⟩
  have hc : c ≠ '<' := by
    rintro rfl
    exact h (by simp [hsplit])
  rw [List.cons_append, opensMarkup_of_ne hc] at hopens
  cases hopens

theorem of_inside (h : ∀ n, o ≤ n → n < o + Text.byteLength x → p n) :
    MarkupOnlyAt p o x rest := by
  intro lead b hsplit hne _
  have hpos := Text.byteLength_pos hne
  have hlength := congrArg Text.byteLength hsplit
  rw [Text.byteLength_append] at hlength
  exact h _ (by omega) (by omega)

theorem mono (hpq : ∀ n, p n → q n) (h : MarkupOnlyAt p o x rest) : MarkupOnlyAt q o x rest := by
  intro lead b hsplit hne hopens
  exact hpq _ (h lead b hsplit hne hopens)

/-- Text that runs up to the boundary of a tag has no such place. -/
theorem breakAt (p : Nat → Prop) (o : Nat) (s : List Char) :
    MarkupOnlyAt p o (Text.breakAt atTagBoundary s).1 (Text.breakAt atTagBoundary s).2 := by
  intro lead b hsplit hne hopens
  have hnone := Text.breakAt_fst hsplit hne
  simp [atTagBoundary, hopens] at hnone

/-- In a document, the offsets of the text at which markup opens have the property. -/
theorem of_opensAt {document before : List Char} {n : Nat}
    (h : MarkupOnlyAt p (Text.byteLength before) x rest)
    (hdocument : document = before ++ (x ++ rest)) (hfrom : Text.byteLength before ≤ n)
    (hto : n < Text.byteLength before + Text.byteLength x) (hopens : opensAt document n = true) :
    p n := by
  rcases opensAt_iff.1 hopens with ⟨a, b, hsplit, rfl, hb⟩
  rw [hdocument] at hsplit
  rcases Text.exists_split_within hsplit hfrom hto with ⟨lead, d, rfl, hne, rfl, rfl⟩
  rw [Text.byteLength_append]
  exact h lead d rfl hne hb

end MarkupOnlyAt

/-! ## Values and attributes -/

theorem isEnclosed_of_unquoted {a : Attribute} (h : a.quote = .unquoted) :
    a.isEnclosed = false := by
  simp [Attribute.isEnclosed, h, Quote.mark?]

/-- Markup opens in an unquoted value or between two quotes, but not in a value that was cut. -/
theorem readValue_markupOnlyAt {p : Nat → Prop} (o : Nat) (s : List Char)
    (hunquoted : (readValue s).quote = .unquoted →
      ∀ n, o ≤ n → n < o + Text.byteLength (readValue s).value → p n)
    (henclosed : ∀ q, (readValue s).quote.mark? = some q →
      (readValue s).raw = q :: ((readValue s).value ++ [q]) →
        ∀ n, o + 1 ≤ n → n < o + 1 + Text.byteLength (readValue s).value → p n) :
    MarkupOnlyAt p o (readValue s).raw (readValue s).rest := by
  rcases readValue_cases s with ⟨hquote, hraw, -⟩ | ⟨q, hmark, ⟨hraw, -⟩ | ⟨u, hraw, -, hbreak⟩⟩
  · rw [hraw]
    exact .of_inside (hunquoted hquote)
  · rcases Quote.mark?_eq_some hmark with ⟨hsize, hbracket, -⟩
    have hlone : '<' ∉ [q] := by simpa using hbracket.symm
    have hlength : Text.byteLength [q] = 1 := by simp [hsize]
    rw [hraw]
    refine .append (x := [q]) (.of_not_mem hlone) (.append (.of_inside ?_) (.of_not_mem hlone))
    rw [hlength]
    exact henclosed q hmark hraw
  · have hlone : '<' ∉ [q] := by simpa using (Quote.mark?_eq_some hmark).2.1.symm
    have hvalue := MarkupOnlyAt.breakAt p (o + Text.byteLength [q]) u
    rw [hbreak] at hvalue
    rw [hraw]
    exact .append (x := [q]) (.of_not_mem hlone) hvalue

/-- Markup in an attribute opens in its name or in its value. -/
theorem readAttribute_markupOnlyAt (o : Nat) (c : Char) (s : List Char) :
    MarkupOnlyAt (fun n => (readAttribute o c s).item.Unwatched n
        ∨ (readAttribute o c s).item.Shelters n)
      o (readAttribute o c s).item.raw (readAttribute o c s).rest := by
  have hstart : (readAttribute o c s).item.span.start = o := by rw [readAttribute_span]; rfl
  have hfits := readAttribute_fits o c s
  have hcases := readAttribute_cases o c s
  generalize (readAttribute o c s).item = a at hstart hfits hcases ⊢
  generalize (readAttribute o c s).rest = rest at hcases ⊢
  subst hstart
  have hname : ∀ n, a.span.start ≤ n → n < a.span.start + Text.byteLength a.name →
      a.Unwatched n ∨ a.Shelters n := by
    intro n hfrom hto
    exact .inl (.inl ⟨hfrom, hto⟩)
  rcases hcases with ⟨-, -, hraw⟩ | ⟨sign, u, hsign, hraw, hvalue, hquote, hrest⟩
  · rw [hraw]
    exact .of_inside hname
  · have hplain : '<' ∉ sign := hsign.not_mem rfl (by decide)
    have hstop := hfits.stop
    rw [hraw] at hstop
    simp only [Text.byteLength_append] at hstop
    rw [hraw, hrest]
    refine .append (.of_inside hname)
      (.append (.of_not_mem hplain) (readValue_markupOnlyAt _ u ?_ ?_))
    · -- an unquoted value ends the attribute
      intro hunquoted n hfrom hto
      have hv : (readValue u).raw = (readValue u).value := by
        rcases readValue_cases u with ⟨-, hv, -⟩ | ⟨q, hmark, -⟩
        · exact hv
        · simp [hunquoted, Quote.mark?] at hmark
      rw [← hquote] at hunquoted
      rw [hv] at hstop
      refine .inl (.inr ⟨hunquoted, ?_⟩)
      simp only [Span.Contains, Attribute.valueSpan, isEnclosed_of_unquoted hunquoted,
        Bool.false_eq_true, if_false, hvalue]
      omega
    · -- between two quotes the value ends one byte before the attribute
      intro q hmark hv n hfrom hto
      have hsize := (Quote.mark?_eq_some hmark).1
      have henclosed : a.isEnclosed = true := by
        rw [← hquote] at hmark
        simp only [Attribute.isEnclosed, hmark, Option.any_some, List.isSuffixOf_iff_suffix,
          hvalue, hraw, ← hv]
        exact ⟨a.name ++ sign, by simp⟩
      rw [hv] at hstop
      simp only [Text.byteLength_cons, Text.byteLength_append, hsize] at hstop
      refine .inr ⟨henclosed, ?_⟩
      simp only [Span.Contains, Attribute.valueSpan, henclosed, if_true, hvalue]
      simp at hstop
      omega

theorem readTagTail_markupOnlyAt (o : Nat) (s : List Char) :
    MarkupOnlyAt (fun n => ∃ a ∈ (readTagTail o s).attributes, a.Unwatched n ∨ a.Shelters n)
      o (readTagTail o s).raw (readTagTail o s).rest := by
  fun_induction readTagTail o s with
  | case1 => exact .nil
  | case2 o c s hspace ih =>
    have hgap : '<' ∉ [c] := by
      intro hmem
      rw [← List.mem_singleton.1 hmem] at hspace
      cases hspace
    have hlength : Text.byteLength [c] = 1 := by simp [utf8Size_of_isSpace hspace]
    refine .append (x := [c]) (.of_not_mem hgap) ?_
    rw [hlength]
    exact ih
  | case3 => exact .of_not_mem (by simp [TagTail.last])
  | case4 => exact .of_not_mem (by simp [TagTail.last])
  | case5 o s _ _ _ ih => exact .append (x := ['/']) (.of_not_mem (by decide)) ih
  | case6 => exact .nil
  | case7 o c s _ _ _ _ read ih =>
    have hfirst : MarkupOnlyAt (fun n => read.item.Unwatched n ∨ read.item.Shelters n) o
        read.item.raw read.rest := readAttribute_markupOnlyAt o c s
    rw [← readTagTail_append read.item.span.stop read.rest] at hfirst
    have hnext : read.item.span.stop = o + Text.byteLength read.item.raw := by
      rw [show read.item.span = .ofText o read.item.raw from readAttribute_span o c s]
      rfl
    refine .append (hfirst.mono ?_) ?_
    · intro n hn
      exact ⟨read.item, List.mem_cons_self, hn⟩
    · rw [← hnext]
      refine ih.mono ?_
      rintro n ⟨a, ha, hn⟩
      exact ⟨a, List.mem_cons_of_mem _ ha, hn⟩

/-! ## Tags -/

/-- A token that is a tag was read by the reader of start tags or by that of end tags. -/
theorem Cursor.lexeme_of_isTag {here : Cursor} (h : here.token.kind.isTag = true) :
    (∃ s, here.rest = '<' :: s ∧ here.lexeme = readStartTag here.offset s)
      ∨ ∃ s, here.rest = '<' :: '/' :: s ∧ here.lexeme = readEndTag here.offset s := by
  have hkind : here.token.kind = here.lexeme.kind := rfl
  rw [hkind] at h
  cases hform : here.lexeme.kind with
  | startTag =>
    rcases lexeme_of_startTag hform with ⟨s, hopening, hread⟩
    exact .inl ⟨s, opening?_append hopening, hread⟩
  | endTag => exact .inr (lexeme_of_endTag hform)
  | _ =>
    rw [hform] at h
    cases h

theorem readStartTag_markupOnlyAt (o : Nat) (s : List Char) :
    let name := s.takeWhile (!endsTagName ·)
    MarkupOnlyAt (fun n => (Span.ofText (o + 1) name).Contains n
        ∨ ∃ a ∈ (readStartTag o s).kind.attributes, a.Unwatched n ∨ a.Shelters n)
      (o + 1) (readStartTag o s).raw.tail (readStartTag o s).rest := by
  intro name
  refine .append (x := name) (.of_inside ?_) ?_
  · intro n hfrom hto
    exact .inl ⟨hfrom, hto⟩
  · exact (readTagTail_markupOnlyAt _ _).mono fun n hn => .inr hn

theorem readEndTag_markupOnlyAt (o : Nat) (s : List Char) :
    let name := s.takeWhile (!endsTagName ·)
    MarkupOnlyAt (Span.ofText (o + 2) name).Contains
      (o + 1) (readEndTag o s).raw.tail (readEndTag o s).rest := by
  intro name
  have hname : ∀ rest, MarkupOnlyAt (Span.ofText (o + 2) name).Contains (o + 1 + 1) name rest :=
    fun rest => .of_inside fun n hfrom hto => ⟨hfrom, hto⟩
  have hslash : '<' ∉ ['/'] := by decide
  have hjunk := MarkupOnlyAt.breakAt (Span.ofText (o + 2) name).Contains
    (o + 1 + 1 + Text.byteLength name) (s.dropWhile (!endsTagName ·))
  rcases readEndTag_cases o s with ⟨hform, hclose⟩ | ⟨hform, -⟩
  · have htail : (readEndTag o s).raw.tail = ['/']
        ++ (name ++ (Text.breakAt atTagBoundary (s.dropWhile (!endsTagName ·))).1 ++ ['>']) := by
      rw [hform]
      rfl
    rw [hclose] at hjunk
    rw [htail, hform]
    exact .append (.of_not_mem hslash)
      (.append (.append (hname _) hjunk) (.of_not_mem (by decide)))
  · have htail : (readEndTag o s).raw.tail = ['/']
        ++ (name ++ (Text.breakAt atTagBoundary (s.dropWhile (!endsTagName ·))).1) := by
      rw [hform]
      rfl
    rw [htail, hform]
    exact .append (.of_not_mem hslash) (.append (hname _) hjunk)

theorem Cursor.nameSpan_token_of_startTag (here : Cursor) {s : List Char}
    (h : here.lexeme = readStartTag here.offset s) :
    here.token.nameSpan = .ofText (here.offset + 1) (s.takeWhile (!endsTagName ·)) := by
  simp only [Token.nameSpan, token, place, h]
  rfl

theorem Cursor.nameSpan_token_of_endTag (here : Cursor) {s : List Char}
    (h : here.lexeme = readEndTag here.offset s) :
    here.token.nameSpan = .ofText (here.offset + 2) (s.takeWhile (!endsTagName ·)) := by
  simp only [Token.nameSpan, token, place, h, readEndTag_kind]
  rfl

/-- Markup in a tag opens in a name or in a value. -/
theorem Cursor.token_markupOnlyAt {here : Cursor} (h : here.token.kind.isTag = true) :
    MarkupOnlyAt (fun n => here.token.Unwatched n ∨ here.token.Shelters n) (here.offset + 1)
      here.lexeme.raw.tail here.lexeme.rest := by
  rcases lexeme_of_isTag h with ⟨s, -, hread⟩ | ⟨s, -, hread⟩
  · have hplaces := readStartTag_markupOnlyAt here.offset s
    have hname := here.nameSpan_token_of_startTag hread
    rw [← hread] at hplaces
    refine hplaces.mono ?_
    rintro n (hn | ⟨a, ha, hn⟩)
    · exact .inl (.inl (hname ▸ hn))
    · rcases hn with hn | hn
      · exact .inl (.inr ⟨a, ha, hn⟩)
      · exact .inr ⟨a, ha, hn⟩
  · have hplaces := readEndTag_markupOnlyAt here.offset s
    have hname := here.nameSpan_token_of_endTag hread
    rw [hread]
    exact hplaces.mono fun n hn => .inl (.inl (hname ▸ hn))

/-! ## Rooms -/

/-- The name of an attribute and an unquoted value lie apart from a value between quotes. -/
theorem Attribute.Fits.not_shelters {a : Attribute} (hfits : a.Fits) {n : Nat}
    (h : a.Unwatched n) : ¬ a.Shelters n := by
  rintro ⟨henclosed, hvalue⟩
  have hroom := hfits.enclosed henclosed
  have hstop := hfits.stop
  rcases h with hname | ⟨hunquoted, -⟩
  · simp only [valueSpan, henclosed, if_true, nameSpan, Span.Contains, Span.ofText] at hname hvalue
    omega
  · rw [isEnclosed_of_unquoted hunquoted] at henclosed
    cases henclosed

theorem Attribute.Fits.unwatched_inside {a : Attribute} (hfits : a.Fits) {n : Nat}
    (h : a.Unwatched n) : a.span.Contains n := by
  have hroom := hfits.name
  have hstop := hfits.stop
  rcases h with hname | ⟨hunquoted, hvalue⟩
  · simp only [nameSpan, Span.Contains, Span.ofText] at hname ⊢
    omega
  · have hfit := hfits.unquoted hunquoted
    simp only [valueSpan, isEnclosed_of_unquoted hunquoted, Bool.false_eq_true, if_false,
      Span.Contains] at hvalue ⊢
    omega

theorem Attribute.Fits.shelters_inside {a : Attribute} (hfits : a.Fits) {n : Nat}
    (h : a.Shelters n) : a.span.Contains n := by
  rcases h with ⟨henclosed, hvalue⟩
  have hroom := hfits.enclosed henclosed
  have hstop := hfits.stop
  simp only [valueSpan, henclosed, if_true, Span.Contains] at hvalue ⊢
  omega

/-- Values between quotes lie behind the name of the tag. -/
theorem readTagTail_shelters {o : Nat} {s : List Char} {n : Nat}
    (h : ∃ a ∈ (readTagTail o s).attributes, a.Shelters n) : o ≤ n := by
  rcases h with ⟨a, ha, hshelter⟩
  have hplace := (readTagTail_laidOut o s).inside ha
  have hin := (readTagTail_fits o s a ha).shelters_inside hshelter
  exact Nat.le_trans hplace.1 hin.1

theorem readTagTail_unwatched {o : Nat} {s : List Char} {n : Nat}
    (h : ∃ a ∈ (readTagTail o s).attributes, a.Unwatched n) :
    o ≤ n ∧ n < o + Text.byteLength (readTagTail o s).raw
      ∧ ¬ ∃ a ∈ (readTagTail o s).attributes, a.Shelters n := by
  rcases h with ⟨a, ha, hn⟩
  have hlaid := readTagTail_laidOut o s
  have hfits := readTagTail_fits o s
  have hplace := hlaid.inside ha
  have hin := (hfits a ha).unwatched_inside hn
  refine ⟨Nat.le_trans hplace.1 hin.1, Nat.lt_of_lt_of_le hin.2 hplace.2, ?_⟩
  rintro ⟨b, hb, hshelter⟩
  -- within one attribute the parts are apart, and so are two attributes
  rcases hlaid.apart ha hb with rfl | hbefore | hbehind
  · exact (hfits a ha).not_shelters hn hshelter
  · have hother := (hfits b hb).shelters_inside hshelter
    exact absurd hin.2 (Nat.not_lt.2 (Nat.le_trans hbefore hother.1))
  · have hother := (hfits b hb).shelters_inside hshelter
    exact absurd hother.2 (Nat.not_lt.2 (Nat.le_trans hbehind hin.1))

/-- The unwatched parts of a tag lie inside it and apart from values between quotes. -/
theorem Cursor.token_unwatched {here : Cursor} (h : here.token.kind.isTag = true) {n : Nat}
    (hn : here.token.Unwatched n) :
    here.token.span.start < n ∧ n < here.token.span.stop ∧ ¬ here.token.Shelters n := by
  have hspan : here.token.span = .ofText here.offset here.lexeme.raw := rfl
  have hkind : here.token.kind = here.lexeme.kind := rfl
  simp only [hspan, Span.ofText, Token.Unwatched, Token.Shelters, hkind] at hn ⊢
  rcases lexeme_of_isTag h with ⟨s, -, hread⟩ | ⟨s, -, hread⟩
  · rw [here.nameSpan_token_of_startTag hread] at hn
    rw [hread] at hn ⊢
    have hlength : Text.byteLength (readStartTag here.offset s).raw
        = 1 + (Text.byteLength (s.takeWhile (!endsTagName ·))
          + Text.byteLength (readTagTail
            (here.offset + 1 + Text.byteLength (s.takeWhile (!endsTagName ·)))
            (s.dropWhile (!endsTagName ·))).raw) := by
      simp only [readStartTag, Text.byteLength_append]
      rfl
    rcases hn with hname | hattribute
    · simp only [Span.Contains, Span.ofText] at hname
      refine ⟨by omega, by omega, ?_⟩
      intro hshelter
      have hbehind := readTagTail_shelters hshelter
      omega
    · rcases readTagTail_unwatched hattribute with ⟨hfrom, hto, hshelter⟩
      exact ⟨by omega, by omega, hshelter⟩
  · rw [here.nameSpan_token_of_endTag hread] at hn
    rw [hread, readEndTag_kind] at hn ⊢
    have hlength : 2 + Text.byteLength (s.takeWhile (!endsTagName ·))
        ≤ Text.byteLength (readEndTag here.offset s).raw := by
      have hopening : Text.byteLength Opening.endTag.text = 2 := rfl
      rcases readEndTag_cases here.offset s with ⟨hform, -⟩ | ⟨hform, -⟩ <;>
      · simp only [hform, Text.byteLength_append]
        omega
    -- an end tag has no attributes
    rcases hn with hname | ⟨a, ha, -⟩
    · simp only [Span.Contains, Span.ofText] at hname
      refine ⟨by omega, by omega, ?_⟩
      rintro ⟨a, ha, -⟩
      cases ha
    · cases ha

/-! ## Endings -/

/-- After a tag that is left open, other markup opens or the document ends. -/
theorem Cursor.rest_of_isLeftOpen {here : Cursor} (h : here.token.isLeftOpen = true) :
    here.lexeme.rest = [] ∨ opensMarkup here.lexeme.rest = true := by
  rcases Bool.and_eq_true_iff.1 h with ⟨htag, hlast⟩
  have hraw : here.token.raw = here.lexeme.raw := rfl
  rw [hraw, bne_iff_ne] at hlast
  rcases lexeme_of_isTag htag with ⟨s, -, hread⟩ | ⟨s, -, hread⟩
  · rw [hread] at hlast ⊢
    have hends := readStartTag_getLast? here.offset s
    rw [beq_eq_false_iff_ne.2 hlast] at hends
    exact readTagTail_rest (by simpa using hends.symm)
  · rcases readEndTag_cases here.offset s with ⟨hform, -⟩ | ⟨hform, hrest⟩
    · rw [hread, hform, List.getLast?_concat] at hlast
      exact absurd rfl hlast
    · rw [hread, hform]
      exact hrest

/-- The end of a leading piece is the end of the document or a place where markup opens, if that is
what follows the piece. -/
theorem opensAt_of_split {document a b : List Char} (hsplit : document = a ++ b)
    (hb : b = [] ∨ opensMarkup b = true) :
    Text.byteLength a = Text.byteLength document ∨ opensAt document (Text.byteLength a) = true := by
  rcases hb with rfl | hopens
  · left
    rw [hsplit, List.append_nil]
  · right
    exact opensAt_iff.2 ⟨a, b, hsplit, rfl, hopens⟩

/-- The same for the end of a token. -/
theorem Cursor.StandsIn.opensAt_stop_of {here : Cursor} {document : List Char}
    (hin : here.StandsIn document)
    (h : here.lexeme.rest = [] ∨ opensMarkup here.lexeme.rest = true) :
    here.token.span.stop = Text.byteLength document
      ∨ opensAt document here.token.span.stop = true := by
  rcases hin with ⟨passed, hdocument, hoffset⟩
  rw [← here.lexeme_append, ← List.append_assoc] at hdocument
  have hstop : here.token.span.stop = Text.byteLength (passed ++ here.lexeme.raw) := by
    rw [Text.byteLength_append, ← hoffset]
    rfl
  rw [hstop]
  exact opensAt_of_split hdocument h

theorem Cursor.StandsIn.opensAt_stop {here : Cursor} {document : List Char}
    (hin : here.StandsIn document) (h : here.token.isLeftOpen = true) :
    here.token.span.stop = Text.byteLength document
      ∨ opensAt document here.token.span.stop = true :=
  hin.opensAt_stop_of (rest_of_isLeftOpen h)

/-- A tag is cut at the first markup exactly if none opens in its unwatched parts. -/
theorem Cursor.StandsIn.cutAtMarkup_iff {here : Cursor} {document : List Char}
    (hin : here.StandsIn document) (h : here.token.kind.isTag = true) :
    here.token.CutAtMarkup document ↔
      ∀ n, here.token.Unwatched n → opensAt document n = false := by
  constructor
  · intro hcut n hn
    rcases token_unwatched h hn with ⟨hfrom, hto, hshelter⟩
    exact hcut n hfrom hto hshelter
  · intro hnone n hfrom hto hshelter
    by_contra hopens
    rw [Bool.not_eq_false] at hopens
    rcases hin with ⟨passed, hdocument, hoffset⟩
    have hbracket : here.lexeme.raw = '<' :: here.lexeme.raw.tail := by
      rcases lexeme_of_isTag h with ⟨s, -, hread⟩ | ⟨s, -, hread⟩
      · rw [hread]
        rfl
      · rcases readEndTag_cases here.offset s with ⟨hform, -⟩ | ⟨hform, -⟩ <;>
          rw [hread, hform] <;> rfl
    have hlead : Text.byteLength (passed ++ ['<']) = here.offset + 1 := by
      simp [hoffset]
      rfl
    have hlength : here.token.span.stop
        = here.offset + (1 + Text.byteLength here.lexeme.raw.tail) := by
      have hstop : here.token.span.stop = here.offset + Text.byteLength here.lexeme.raw := rfl
      rw [hstop, hbracket, Text.byteLength_cons]
      rfl
    have hstart : here.token.span.start = here.offset := rfl
    -- the first `<` is the tag's own, so the text to look at starts one byte later
    have hplaces := token_markupOnlyAt h
    rw [← hlead] at hplaces
    have hwhole : document
        = (passed ++ ['<']) ++ (here.lexeme.raw.tail ++ here.lexeme.rest) := by
      rw [hdocument, ← here.lexeme_append, hbracket]
      simp
    rcases hplaces.of_opensAt hwhole (by omega) (by omega) hopens with hn | hn
    · rw [hnone n hn] at hopens
      cases hopens
    · exact hshelter hn

/-- A tag that is left open ends with the document or where markup opens, and this is the first
markup after its start, values between two quotes apart, exactly if none opens in its name, in the
name of an attribute or in an unquoted value. -/
theorem leftOpen_cutAtMarkup_iff (document : List Char) (t : Token) (ht : t ∈ scan document)
    (hopen : t.isLeftOpen = true) :
    (t.span.stop = Text.byteLength document ∨ opensAt document t.span.stop = true)
      ∧ (t.CutAtMarkup document ↔ ∀ n, t.Unwatched n → opensAt document n = false) := by
  rcases exists_cursor_of_mem_scan ht with ⟨here, hin, -, rfl⟩
  exact ⟨hin.opensAt_stop hopen, hin.cutAtMarkup_iff (Bool.and_eq_true_iff.1 hopen).1⟩

/-- The start tag at the beginning of `<p a="<i>"<b`. -/
def tagBeforeMarkup : Token :=
  { kind := .startTag ['p'] [⟨['a'], "<i>".toList, .double, "a=\"<i>\"".toList, ⟨3, 10⟩⟩] false
    raw := "<p a=\"<i>\"".toList
    span := ⟨0, 10⟩ }

/-- The first tag of `<p a="<i>"<b` is left open and holds markup in its value; it is cut at the
first markup after it. -/
theorem tagBeforeMarkup_cut :
    tagBeforeMarkup ∈ scan "<p a=\"<i>\"<b".toList
      ∧ tagBeforeMarkup.isLeftOpen = true
      ∧ opensAt "<p a=\"<i>\"<b".toList 6 = true
      ∧ tagBeforeMarkup.CutAtMarkup "<p a=\"<i>\"<b".toList := by
  have hscan : tagBeforeMarkup ∈ scan "<p a=\"<i>\"<b".toList := by decide +kernel
  have hopen : tagBeforeMarkup.isLeftOpen = true := by decide +kernel
  refine ⟨hscan, hopen, by decide +kernel, ?_⟩
  refine (leftOpen_cutAtMarkup_iff _ _ hscan hopen).2.2 ?_
  -- the unwatched parts are the two names, one byte each
  rintro n (hname | ⟨a, ha, hname | ⟨hquote, -⟩⟩)
  · obtain rfl : n = 1 := Nat.le_antisymm (Nat.le_of_lt_succ hname.2) hname.1
    decide +kernel
  · obtain rfl := List.mem_singleton.1 ha
    obtain rfl : n = 3 := Nat.le_antisymm (Nat.le_of_lt_succ hname.2) hname.1
    decide +kernel
  · obtain rfl := List.mem_singleton.1 ha
    cases hquote

/-- In `<a<b` the first tag is left open and its name runs over the second. -/
theorem scan_name_over_markup :
    ∃ t ∈ scan "<a<b".toList,
      t.isLeftOpen = true ∧ opensAt "<a<b".toList 2 = true ∧ ¬ t.CutAtMarkup "<a<b".toList := by
  have hopens : opensAt "<a<b".toList 2 = true := by decide +kernel
  refine ⟨⟨.startTag "a<b".toList [] false, "<a<b".toList, ⟨0, 4⟩⟩, by decide +kernel,
    by decide +kernel, hopens, ?_⟩
  intro hcut
  have hnone := hcut 2 (by decide) (by decide) (by rintro ⟨a, ha, -⟩; cases ha)
  rw [hopens] at hnone
  cases hnone

end HtmlLint
