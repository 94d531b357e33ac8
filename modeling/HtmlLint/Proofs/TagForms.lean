import HtmlLint.Proofs.OpenTags
import HtmlLint.Proofs.Standalone

/-!
# The written form of a start tag

A start tag is its name, then gaps and attributes in turn, then its ending. However malformed a tag
is, nothing of its text is left over: what belongs to no attribute is a gap of spaces and slashes.

* `TagLayout` — the gaps of a tag, its attributes and its ending.
* `Attribute.Written` — the forms of an attribute that lacks nothing.
* `Attribute.CutOff` — the form of an attribute that lacks its closing quote.
* `ReadAfter` — where in a tag an attribute was read. `exists_readAfter` goes back from an attribute
  of a tag to that place, so that a fact about attributes is a fact about `readAttribute`.

`startTag_written` puts the parts of a tag together.
-/

namespace HtmlLint

/-! ## Attributes -/

namespace Attribute

/-- The name is not empty. Its first character does not end the name of a tag, and no other one ends
the name of an attribute. -/
def HasProperName (a : Attribute) : Prop :=
  ∃ c s, a.name = c :: s ∧ endsTagName c = false ∧ ∀ d ∈ s, endsAttributeName d = false

/-- The attribute lacks nothing: it is a name alone, or a name and a value that is unquoted or stands
between two quotes. -/
inductive Written (a : Attribute) : Prop where
  | missing (quote : a.quote = .missing) (value : a.value = []) (raw : a.raw = a.name)
  | unquoted {sign : List Char} (quote : a.quote = .unquoted) (hsign : IsSign sign)
      (raw : a.raw = a.name ++ (sign ++ a.value))
      (plain : ∀ c ∈ a.value, isUnquotedChar c = true)
      (bare : ∀ c ∈ a.value.head?, c ≠ '"' ∧ c ≠ '\x27')
  | enclosed {q : Char} {sign : List Char} (mark : a.quote.mark? = some q) (hsign : IsSign sign)
      (raw : a.raw = a.name ++ (sign ++ q :: (a.value ++ [q]))) (plain : q ∉ a.value)

/-- The value is opened by the quote `q`, which is closed neither in the value nor in the text `after`
it. So the value runs up to where a tag would end. -/
structure CutOff (a : Attribute) (q : Char) (after : List Char) : Prop where
  mark : a.quote.mark? = some q
  raw : ∃ sign, IsSign sign ∧ a.raw = a.name ++ (sign ++ q :: a.value)
  unclosed : q ∉ a.value ++ after
  boundary : Text.breakAt atTagBoundary (a.value ++ after) = (a.value, after)

end Attribute

theorem readAttribute_hasProperName (o : Nat) {c : Char} (hc : endsTagName c = false)
    (s : List Char) : (readAttribute o c s).item.HasProperName := by
  refine ⟨c, _, readAttribute_name o c s, hc, ?_⟩
  intro d hd
  have hd := List.mem_takeWhile_imp hd
  simpa using hd

/-- The forms of an attribute as it is read, by the form of its value. -/
theorem readAttribute_form (o : Nat) (c : Char) (s : List Char) :
    (readAttribute o c s).item.Written
      ∨ ∃ q, (readAttribute o c s).item.CutOff q (readAttribute o c s).rest := by
  rcases readAttribute_cases o c s with
    ⟨hquote, hvalue, hraw⟩ | ⟨sign, u, hsign, hraw, hvalue, hquote, hrest⟩
  · exact .inl (.missing hquote hvalue hraw)
  · rw [hrest]
    rcases readValue_cases u with
      ⟨hunquoted, hv, hplain, hbare⟩ | ⟨q, hmark, ⟨hv, hplain⟩ | ⟨w, hv, hopen, hbreak⟩⟩
    · rw [← hquote] at hunquoted
      rw [hv] at hraw
      rw [← hvalue] at hraw hplain hbare
      exact .inl (.unquoted hunquoted hsign hraw hplain hbare)
    · rw [← hquote] at hmark
      rw [hv] at hraw
      rw [← hvalue] at hraw hplain
      exact .inl (.enclosed hmark hsign hraw hplain)
    · -- the text behind the opening quote is the value and what was left
      have hwhole := Text.breakAt_append atTagBoundary w
      rw [hbreak] at hwhole
      rw [← hquote] at hmark
      rw [hv] at hraw
      rw [← hvalue] at hraw hwhole hbreak
      subst hwhole
      exact .inr ⟨q, hmark, ⟨sign, hsign, hraw⟩, hopen, hbreak⟩

namespace Attribute.CutOff

variable {a : Attribute} {q : Char} {after : List Char}

/-- What follows the value ends a tag. -/
theorem stop (h : a.CutOff q after) : after = [] ∨ atTagBoundary after = true := by
  have hstop := Text.breakAt_snd atTagBoundary (a.value ++ after)
  rwa [h.boundary] at hstop

end Attribute.CutOff

/-! ## Where attributes are read -/

/-- Where a tag may end it does end: with the `>` that stands there, or else with nothing more. -/
theorem readTagTail_of_boundary (o : Nat) {s : List Char} (h : s = [] ∨ atTagBoundary s = true) :
    (∃ r, s = '>' :: r ∧ readTagTail o s = .last ['>'] .closed r)
      ∨ ∃ ending, s.head? ≠ some '>' ∧ ending.isOpen = true
        ∧ readTagTail o s = .last [] ending s := by
  rcases h with rfl | hboundary
  · exact .inr ⟨.unfinished, by simp, rfl, by rw [readTagTail]⟩
  · simp only [atTagBoundary, Bool.or_eq_true, beq_iff_eq] at hboundary
    rcases hboundary with hclose | hopens
    · rcases List.head?_eq_some_iff.1 hclose with ⟨r, rfl⟩
      exact .inl ⟨r, rfl, readTagTail_close o r⟩
    · refine .inr ⟨.cut, ?_, rfl, readTagTail_markup o hopens⟩
      rcases exists_bracket_of_opensMarkup hopens with ⟨r, rfl⟩
      simp

/-- In the text `s`, which starts at offset `o` and follows the name of a tag, the attribute `a` was
read behind `lead`, and the tag was read on from `rest`. -/
structure ReadAfter (o : Nat) (s lead : List Char) (a : Attribute) (rest : List Char) : Prop where
  split : s = lead ++ (a.raw ++ rest)
  span : a.span = .ofText (o + Text.byteLength lead) a.raw
  name : a.HasProperName
  form : a.Written ∨ ∃ q, a.CutOff q rest
  raw : (readTagTail o s).raw = lead ++ (a.raw ++ (readTagTail a.span.stop rest).raw)
  ending : (readTagTail o s).ending = (readTagTail a.span.stop rest).ending

/-- More of the tag in front moves the place. -/
theorem ReadAfter.prepend {o : Nat} {x s lead rest : List Char} {a : Attribute}
    (h : ReadAfter (o + Text.byteLength x) s lead a rest)
    (hraw : (readTagTail o (x ++ s)).raw = x ++ (readTagTail (o + Text.byteLength x) s).raw)
    (hending : (readTagTail o (x ++ s)).ending
      = (readTagTail (o + Text.byteLength x) s).ending) :
    ReadAfter o (x ++ s) (x ++ lead) a rest where
  split := by rw [h.split, List.append_assoc]
  span := by rw [h.span, Text.byteLength_append, Nat.add_assoc]
  name := h.name
  form := h.form
  raw := by rw [hraw, h.raw, List.append_assoc]
  ending := by rw [hending, h.ending]

/-- Every attribute of a tag was read at some place, and those behind it were read from there on. -/
theorem exists_readAfter {behind : List Attribute} {a : Attribute} (o : Nat) (s : List Char) :
    ∀ before, (readTagTail o s).attributes = before ++ a :: behind →
      ∃ lead rest, ReadAfter o s lead a rest
        ∧ behind = (readTagTail a.span.stop rest).attributes := by
  fun_induction readTagTail o s with
  | case1 => simp [TagTail.last]
  | case2 o c s hspace ih =>
    intro before h
    rcases ih before h with ⟨lead, rest, hread, hbehind⟩
    have hlength : o + 1 = o + Text.byteLength [c] := by simp [utf8Size_of_isSpace hspace]
    have hstep := readTagTail_space o hspace s
    rw [hlength] at hread hstep
    exact ⟨[c] ++ lead, rest, hread.prepend (by rw [List.singleton_append, hstep]; rfl)
      (by rw [List.singleton_append, hstep]; rfl), hbehind⟩
  | case3 => simp [TagTail.last]
  | case4 => simp [TagTail.last]
  | case5 o s hnext _ _ ih =>
    intro before h
    rcases ih before h with ⟨lead, rest, hread, hbehind⟩
    have hstep := readTagTail_slash o (s := s) (by
      intro hclose
      rcases List.head?_eq_some_iff.1 hclose with ⟨r, hr⟩
      exact hnext r hr)
    exact ⟨['/'] ++ lead, rest, ReadAfter.prepend (x := ['/']) hread
      (by rw [List.singleton_append, hstep]; rfl) (by rw [List.singleton_append, hstep]; rfl),
      hbehind⟩
  | case6 => simp [TagTail.last]
  | case7 o c s hspace hclose hslash hmarkup read ih =>
    intro before h
    have hname : endsTagName c = false := by simp [endsTagName, hspace, hclose, hslash]
    have hspan : read.item.span = .ofText o read.item.raw := readAttribute_span o c s
    have hsplit : c :: s = read.item.raw ++ read.rest := (readAttribute_append o c s).symm
    have hstep : readTagTail o (c :: s)
        = (readTagTail read.item.span.stop read.rest).afterAttribute read :=
      readTagTail_attribute o hname (by simpa using hmarkup)
    cases before with
    | nil =>
      -- the attribute in question is the one read here
      obtain ⟨rfl, rfl⟩ : read.item = a ∧ (readTagTail read.item.span.stop read.rest).attributes
          = behind := List.cons.inj h
      exact ⟨[], read.rest, ⟨hsplit, by simpa using hspan, readAttribute_hasProperName o hname s,
        readAttribute_form o c s, by rw [hstep]; rfl, by rw [hstep]; rfl⟩, rfl⟩
    | cons b before =>
      rcases ih before (List.cons.inj h).2 with ⟨lead, rest, hread, hbehind⟩
      have hstop : read.item.span.stop = o + Text.byteLength read.item.raw := by
        rw [hspan]
        rfl
      rw [hsplit] at hstep ⊢
      rw [hstop] at hread hstep
      exact ⟨read.item.raw ++ lead, rest, hread.prepend (by rw [hstep]; rfl) (by rw [hstep]; rfl),
        hbehind⟩

/-- A tag ends with the value that lacks its closing quote, but for a `>` of its own. -/
theorem ReadAfter.of_cutOff {o : Nat} {s lead rest : List Char} {a : Attribute} {q : Char}
    (h : ReadAfter o s lead a rest) (hcut : a.CutOff q rest) :
    (readTagTail a.span.stop rest).attributes = []
      ∧ (readTagTail o s).ending ≠ .selfClosed
      ∧ (readTagTail o s).raw
        = lead ++ (a.raw ++ if rest.head? = some '>' then ['>'] else []) := by
  rw [h.ending, h.raw]
  rcases readTagTail_of_boundary a.span.stop hcut.stop with
    ⟨r, rfl, hlast⟩ | ⟨ending, hhead, hopen, hlast⟩
  · rw [hlast]
    exact ⟨rfl, nofun, rfl⟩
  · rw [hlast, if_neg hhead]
    refine ⟨rfl, ?_, rfl⟩
    rintro rfl
    cases hopen

/-! ## Gaps -/

/-- Spaces and slashes. -/
def IsGap (s : List Char) : Prop :=
  ∀ c ∈ s, isSpace c = true ∨ c = '/'

/-- What follows the name of a start tag, in its parts. -/
structure TagLayout where
  /-- The gap behind the name. -/
  lead : List Char
  /-- The attributes, each with the gap behind it. -/
  items : List (Attribute × List Char)
  close : List Char

namespace TagLayout

def text (layout : TagLayout) : List Char :=
  layout.lead ++ (layout.items.flatMap (fun item => item.1.raw ++ item.2) ++ layout.close)

def gaps (layout : TagLayout) : List (List Char) :=
  layout.lead :: layout.items.map (·.2)

/-- The gap before the ending. -/
def lastGap (layout : TagLayout) : List Char :=
  (layout.items.map (·.2)).getLastD layout.lead

def afterGap (c : Char) (layout : TagLayout) : TagLayout :=
  { layout with lead := c :: layout.lead }

def afterAttribute (a : Attribute) (layout : TagLayout) : TagLayout :=
  ⟨[], (a, layout.lead) :: layout.items, layout.close⟩

@[simp]
theorem text_afterGap (c : Char) (layout : TagLayout) :
    (layout.afterGap c).text = c :: layout.text := rfl

@[simp]
theorem text_afterAttribute (a : Attribute) (layout : TagLayout) :
    (layout.afterAttribute a).text = a.raw ++ layout.text := by
  simp [afterAttribute, text]

@[simp]
theorem lastGap_afterAttribute (a : Attribute) (layout : TagLayout) :
    (layout.afterAttribute a).lastGap = layout.lastGap :=
  List.getLastD_cons ..

/-- A gap ends in the character put in front of it only if there was no gap and no attribute. -/
theorem getLast?_lastGap_afterGap {c d : Char} {layout : TagLayout}
    (h : (layout.afterGap c).lastGap.getLast? = some d) :
    layout.lastGap.getLast? = some d ∨ c = d ∧ layout.text = layout.close := by
  rcases layout with ⟨lead, items, close⟩
  cases items with
  | nil =>
    cases lead with
    | nil => exact .inr ⟨by simpa [afterGap, lastGap] using h, rfl⟩
    | cons e lead => exact .inl (by simpa [afterGap, lastGap] using h)
  | cons item items => exact .inl h

end TagLayout

/-- The text by which a tag ends. -/
def TagEnding.text : TagEnding → List Char
  | closed => ['>']
  | selfClosed => ['/', '>']
  | cut | unfinished => []

/-- The layout gives the parts of the tail, and a `>` does not come right behind a slash in a gap. -/
structure TagTail.LaidOutAs (tail : TagTail) (layout : TagLayout) : Prop where
  attributes : layout.items.map (·.1) = tail.attributes
  raw : tail.raw = layout.text
  gaps : ∀ gap ∈ layout.gaps, IsGap gap
  close : layout.close = tail.ending.text
  slash : tail.ending = .closed → layout.lastGap.getLast? ≠ some '/'

namespace TagTail.LaidOutAs

variable {tail : TagTail} {layout : TagLayout}

theorem last (ending : TagEnding) (rest : List Char) :
    (TagTail.last ending.text ending rest).LaidOutAs ⟨[], [], ending.text⟩ where
  attributes := rfl
  raw := rfl
  gaps := by
    intro gap hgap c hc
    rw [List.mem_singleton.1 hgap] at hc
    cases hc
  close := rfl
  slash := by simp [TagLayout.lastGap]

theorem afterGap (h : tail.LaidOutAs layout) {c : Char} (hc : isSpace c = true ∨ c = '/')
    (hslash : c = '/' → tail.raw ≠ ['>']) :
    (tail.afterGap [c]).LaidOutAs (layout.afterGap c) where
  attributes := h.attributes
  raw := by simp [TagTail.afterGap, h.raw]
  gaps := by
    intro gap hgap
    rcases List.mem_cons.1 hgap with rfl | hgap
    · intro d hd
      rcases List.mem_cons.1 hd with rfl | hd
      · exact hc
      · exact h.gaps _ List.mem_cons_self d hd
    · exact h.gaps gap (List.mem_cons_of_mem _ hgap)
  close := h.close
  slash := by
    intro hclosed hends
    rcases TagLayout.getLast?_lastGap_afterGap hends with hends | ⟨rfl, htext⟩
    · exact h.slash hclosed hends
    · -- the slash would stand right before the `>` and belong to the ending
      have hending : tail.ending = .closed := hclosed
      exact hslash rfl (by rw [h.raw, htext, h.close, hending]; rfl)

theorem afterAttribute (h : tail.LaidOutAs layout) (read : ReadAttribute) :
    (tail.afterAttribute read).LaidOutAs (layout.afterAttribute read.item) where
  attributes := congrArg (read.item :: ·) h.attributes
  raw := by simp [TagTail.afterAttribute, h.raw]
  gaps := by
    intro gap hgap
    rcases List.mem_cons.1 hgap with rfl | hgap
    · exact fun c hc => absurd hc List.not_mem_nil
    · exact h.gaps gap hgap
  close := h.close
  slash := by
    intro hclosed
    rw [TagLayout.lastGap_afterAttribute]
    exact h.slash hclosed

end TagTail.LaidOutAs

/-- Whatever follows the name of a tag can be laid out. -/
theorem exists_laidOutAs (o : Nat) (s : List Char) :
    ∃ layout, (readTagTail o s).LaidOutAs layout := by
  fun_induction readTagTail o s with
  | case1 => exact ⟨_, .last .unfinished []⟩
  | case2 o c s hspace ih =>
    rcases ih with ⟨layout, h⟩
    have hslash : c ≠ '/' := by
      rintro rfl
      cases hspace
    exact ⟨_, h.afterGap (.inl hspace) fun hc => absurd hc hslash⟩
  | case3 o s => exact ⟨_, .last .closed s⟩
  | case4 o rest => exact ⟨_, .last .selfClosed rest⟩
  | case5 o s hnext _ _ ih =>
    rcases ih with ⟨layout, h⟩
    refine ⟨_, h.afterGap (.inr rfl) ?_⟩
    intro _ hraw
    have hwhole := readTagTail_append (o + 1) s
    rw [hraw] at hwhole
    exact hnext _ hwhole.symm
  | case6 o c s => exact ⟨_, .last .cut (c :: s)⟩
  | case7 o c s _ _ _ _ read ih =>
    rcases ih with ⟨layout, h⟩
    exact ⟨_, h.afterAttribute read⟩

/-! ## Start tags -/

/-- Where the start tag `t` was read: behind `passed` stands its name, and behind the name its tail
was read from `s`. -/
structure TagSite (document : List Char) (t : Token) (passed name s : List Char)
    (tail : TagTail) : Prop where
  read : tail = readTagTail (Text.byteLength (passed ++ '<' :: name)) s
  document : document = passed ++ '<' :: (name ++ s)
  raw : t.raw = '<' :: (name ++ tail.raw)
  span : t.span = .ofText (Text.byteLength passed) t.raw
  letter : startsWithLetter name = true
  plain : ∀ c ∈ name, endsTagName c = false

theorem exists_tagSite {document : List Char} {t : Token} {name : List Char}
    {attributes : List Attribute} {selfClosing : Bool} (ht : t ∈ scan document)
    (hkind : t.kind = .startTag name attributes selfClosing) :
    ∃ passed s tail, TagSite document t passed name s tail
      ∧ attributes = tail.attributes ∧ selfClosing = (tail.ending == .selfClosed) := by
  rcases exists_cursor_of_mem_scan ht with ⟨here, ⟨passed, hdocument, hoffset⟩, -, rfl⟩
  rcases Cursor.lexeme_of_startTag hkind with ⟨s, hopening, hread⟩
  have hlexeme : here.lexeme.kind = .startTag name attributes selfClosing := hkind
  rw [hread] at hlexeme
  obtain ⟨rfl, rfl, rfl⟩ := Token.Kind.startTag.inj hlexeme
  have hrest : here.rest = '<' :: s := opening?_append hopening
  have hraw : here.token.raw = (readStartTag here.offset s).raw := by
    rw [← hread]
    rfl
  have hstart : here.offset + 1 + Text.byteLength (s.takeWhile (!endsTagName ·))
      = Text.byteLength (passed ++ '<' :: s.takeWhile (!endsTagName ·)) := by
    rw [hoffset, Text.byteLength_append, Nat.add_assoc]
    rfl
  refine ⟨passed, s.dropWhile (!endsTagName ·), _, ⟨by rw [hstart], ?_, hraw, ?_, ?_, ?_⟩, rfl, rfl⟩
  · rw [List.takeWhile_append_dropWhile, hdocument, hrest]
  · rw [← hoffset]
    rfl
  · exact startsWithLetter_takeWhile (startsWithLetter_of_opening? hopening (.inl rfl))
  · intro c hc
    have hc := List.mem_takeWhile_imp hc
    simpa using hc

namespace TagSite

variable {document passed name s : List Char} {t : Token} {tail : TagTail}

theorem rest (h : TagSite document t passed name s tail) :
    document = (passed ++ t.raw) ++ tail.rest := by
  have hwhole := readTagTail_append (Text.byteLength (passed ++ '<' :: name)) s
  rw [← h.read] at hwhole
  rw [h.document, h.raw, ← hwhole]
  simp

theorem stop (h : TagSite document t passed name s tail) :
    t.span.stop = Text.byteLength (passed ++ t.raw) := by
  rw [h.span, Text.byteLength_append]
  rfl

/-- Every attribute of the tag was read at some place behind the name. -/
theorem exists_readAfter (h : TagSite document t passed name s tail) {before behind : List Attribute}
    {a : Attribute} (hattributes : tail.attributes = before ++ a :: behind) :
    ∃ lead rest, ReadAfter (Text.byteLength (passed ++ '<' :: name)) s lead a rest
      ∧ behind = (readTagTail a.span.stop rest).attributes := by
  rw [h.read] at hattributes
  exact HtmlLint.exists_readAfter _ s before hattributes

/-- An attribute of the tag stands in the document where its span says. -/
theorem place (h : TagSite document t passed name s tail) {lead rest : List Char}
    {a : Attribute} (hread : ReadAfter (Text.byteLength (passed ++ '<' :: name)) s lead a rest) :
    document = (passed ++ '<' :: (name ++ lead)) ++ (a.raw ++ rest)
      ∧ a.span = .ofText (Text.byteLength (passed ++ '<' :: (name ++ lead))) a.raw := by
  refine ⟨?_, ?_⟩
  · rw [h.document, hread.split]
    simp
  · rw [hread.span, ← Text.byteLength_append]
    simp

theorem dropBytes_stop (h : TagSite document t passed name s tail) {lead rest : List Char}
    {a : Attribute} (hread : ReadAfter (Text.byteLength (passed ++ '<' :: name)) s lead a rest) :
    Text.dropBytes a.span.stop document = rest := by
  rcases h.place hread with ⟨hdocument, hspan⟩
  have hstop : a.span.stop = Text.byteLength ((passed ++ '<' :: (name ++ lead)) ++ a.raw) := by
    rw [hspan]
    exact (Text.byteLength_append _ _).symm
  rw [hstop, hdocument, ← List.append_assoc, Text.dropBytes_byteLength_append]

end TagSite

/-- The layout shows the start tag `t` of a document part by part. The tag ends by `/>` exactly if it
closes itself. Otherwise it ends by a `>` that no slash precedes, or by nothing, which is the case
only at the end of the document and where markup opens. -/
structure TagLayout.Shows (layout : TagLayout) (document : List Char) (t : Token)
    (name : List Char) (attributes : List Attribute) (selfClosing : Bool) : Prop where
  raw : t.raw = '<' :: (name ++ layout.text)
  attributes : layout.items.map (·.1) = attributes
  gaps : ∀ gap ∈ layout.gaps, IsGap gap
  selfClosed : layout.close = ['/', '>'] ↔ selfClosing = true
  ending : selfClosing = false →
    (layout.close = ['>'] ∧ layout.lastGap.getLast? ≠ some '/')
      ∨ (layout.close = [] ∧ (t.span.stop = Text.byteLength document
        ∨ opensAt document t.span.stop = true))

theorem TagSite.shows {document passed name s : List Char} {t : Token} {tail : TagTail}
    (h : TagSite document t passed name s tail) {layout : TagLayout}
    (hlayout : tail.LaidOutAs layout) :
    layout.Shows document t name tail.attributes (tail.ending == .selfClosed) where
  raw := by rw [h.raw, hlayout.raw]
  attributes := hlayout.attributes
  gaps := hlayout.gaps
  selfClosed := by
    rw [hlayout.close]
    cases tail.ending <;> simp [TagEnding.text]
  ending := by
    intro hclosing
    have hopen : tail.ending.isOpen = true → t.span.stop = Text.byteLength document
        ∨ opensAt document t.span.stop = true := by
      intro hopen
      rw [h.stop]
      refine opensAt_of_split h.rest ?_
      rw [h.read] at hopen ⊢
      exact readTagTail_rest hopen
    rw [hlayout.close]
    cases hending : tail.ending with
    | closed => exact .inl ⟨rfl, hlayout.slash hending⟩
    | selfClosed =>
      rw [hending] at hclosing
      cases hclosing
    | cut => exact .inr ⟨rfl, hopen (by rw [hending]; rfl)⟩
    | unfinished => exact .inr ⟨rfl, hopen (by rw [hending]; rfl)⟩

/-- A start tag is its `<`, its name, gaps and attributes in turn, and its ending. The name starts
with a letter and holds nothing that ends it. Every attribute has a proper name and is written in
one of the four ways; only the last one may lack its closing quote, and then this quote does not
occur in the rest of the document. -/
theorem startTag_written (document : List Char) (t : Token) (ht : t ∈ scan document)
    {name : List Char} {attributes : List Attribute} {selfClosing : Bool}
    (hkind : t.kind = .startTag name attributes selfClosing) :
    (∃ layout : TagLayout, layout.Shows document t name attributes selfClosing)
      ∧ startsWithLetter name = true ∧ (∀ c ∈ name, endsTagName c = false)
      ∧ ∀ before a behind, attributes = before ++ a :: behind →
          a.HasProperName
            ∧ (a.Written
              ∨ behind = [] ∧ ∃ q, a.CutOff q (Text.dropBytes a.span.stop document)) := by
  rcases exists_tagSite ht hkind with ⟨passed, s, tail, hsite, rfl, rfl⟩
  refine ⟨?_, hsite.letter, hsite.plain, ?_⟩
  · rcases exists_laidOutAs (Text.byteLength (passed ++ '<' :: name)) s with ⟨layout, hlayout⟩
    rw [← hsite.read] at hlayout
    exact ⟨layout, hsite.shows hlayout⟩
  · intro before a behind hattributes
    rcases hsite.exists_readAfter hattributes with ⟨lead, rest, hread, rfl⟩
    refine ⟨hread.name, hread.form.imp_right ?_⟩
    rintro ⟨q, hcut⟩
    exact ⟨(hread.of_cutOff hcut).1, q, by rwa [hsite.dropBytes_stop hread]⟩

/-- The start tag of `<p/ a = "x" =b=c/ d='é<i>`, whose last value lacks its closing quote. -/
def brokenTag : Token :=
  { kind := .startTag ['p']
      [⟨['a'], ['x'], .double, "a = \"x\"".toList, ⟨4, 11⟩⟩,
        ⟨['=', 'b'], ['c', '/'], .unquoted, "=b=c/".toList, ⟨12, 17⟩⟩,
        ⟨['d'], ['é'], .single, "d='é".toList, ⟨18, 23⟩⟩] false
    raw := "<p/ a = \"x\" =b=c/ d='é".toList
    span := ⟨0, 23⟩ }

/-- The last attribute of `<p/ a = "x" =b=c/ d='é<i>` is cut off, and the tag ends with it. -/
theorem brokenTag_written :
    brokenTag ∈ scan "<p/ a = \"x\" =b=c/ d='é<i>".toList
      ∧ (∃ layout : TagLayout, layout.Shows "<p/ a = \"x\" =b=c/ d='é<i>".toList brokenTag ['p']
        brokenTag.kind.attributes false)
      ∧ ∃ q, Attribute.CutOff ⟨['d'], ['é'], .single, "d='é".toList, ⟨18, 23⟩⟩ q
          "<i>".toList := by
  have hscan : brokenTag ∈ scan "<p/ a = \"x\" =b=c/ d='é<i>".toList := by decide +kernel
  rcases startTag_written _ brokenTag hscan rfl with ⟨hlayout, -, -, hforms⟩
  refine ⟨hscan, hlayout, ?_⟩
  rcases (hforms [_, _] _ [] rfl).2 with hwritten | ⟨-, q, hcut⟩
  · -- its text would end in a quote
    cases hwritten with
    | missing hquote => cases hquote
    | unquoted hquote => cases hquote
    | enclosed hmark _ hraw =>
      cases hmark
      have hlast := congrArg List.getLast? hraw
      simp [List.getLast?_append, List.getLast?_cons] at hlast
  · have hafter : Text.dropBytes 23 "<p/ a = \"x\" =b=c/ d='é<i>".toList = "<i>".toList := by
      decide +kernel
    exact ⟨q, hafter ▸ hcut⟩

end HtmlLint
