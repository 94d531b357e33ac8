import HtmlLint.Proofs.Recoding.Events

/-!
# The case of letters does not change the structure of a document

Documents that differ in the case of letters only are compared through the document in lower case,
which is a recoding of both. Two things in a document depend on case. A section of characters opens
with capitals, so documents that open one in any case are left out. The conditions in a comment are
told in lower case, so a comment may be a conditional in one document and none in the other; the two
have the same extent, and with conditionals read as comments (`Token.Kind.asComment`) the documents
have the same tokens.

* `Recoding.lowercase` — the recoding.
* `Event.shape` — what an event tells about the structure of its document.
-/

namespace HtmlLint

/-! ## Lower case -/

theorem toLower_toLower (c : Char) : c.toLower.toLower = c.toLower := by
  apply Char.ext
  simp only [val_toLower]
  grind

theorem toLower_of_isSpace {c : Char} (h : isSpace c = true) : c.toLower = c := by
  rcases eq_or_isAlpha_of_toLower_eq (toLower_toLower c) with hsame | ⟨-, hletter⟩
  · exact hsame
  · rw [isAlpha_of_isSpace h] at hletter
    cases hletter

theorem utf8Size_toLower (c : Char) : c.toLower.utf8Size = c.utf8Size := by
  rcases eq_or_isAlpha_of_toLower_eq (toLower_toLower c) with hsame | ⟨hlower, hletter⟩
  · rw [hsame]
  · -- letters from A to Z take one byte in either case
    have hone : ∀ {d : Char}, d.isAlpha = true → d.utf8Size = 1 := by
      intro d hd
      rw [isAlpha_iff] at hd
      rw [Char.utf8Size_eq_one_iff]
      grind
    rw [hone hlower, hone hletter]

theorem Text.byteLength_lower (s : List Char) : byteLength (lower s) = byteLength s := by
  induction s with
  | nil => rfl
  | cons c s ih =>
    have hcons : lower (c :: s) = c.toLower :: lower s := rfl
    rw [hcons, byteLength_cons, byteLength_cons, ih, utf8Size_toLower]

namespace Recoding

/-- Writes A to Z in lower case. -/
def lowercase : Recoding where
  write c := [c.toLower]
  write_space c hc := by simp [toLower_of_isSpace hc, hc]
  write_other c _ := ⟨c.toLower, rfl, toLower_toLower c⟩

theorem lowercase_apply (s : List Char) : lowercase.apply s = Text.lower s :=
  List.flatMap_pure_eq_map Char.toLower s

theorem lowercase_keepsLocations : lowercase.KeepsLocations := by
  have hfeed : ∀ c : Char, c.toLower = '\n' ↔ c = '\n' := by
    intro c
    constructor
    · intro h
      rcases eq_or_isAlpha_of_toLower_eq (h.trans (toLower_of_isSpace (c := '\n') rfl).symm) with
        hsame | ⟨-, hletter⟩
      · exact hsame
      · cases hletter
    · rintro rfl
      rfl
  intro here s
  induction s generalizing here with
  | nil => rfl
  | cons c s ih =>
    have hnext : here.next c.toLower = here.next c := by simp [Location.next, hfeed]
    rw [apply_cons, Location.after_append, ih, Location.after_cons]
    exact congrArg (fun place : Location => place.after s) hnext

/-- In lower case no section of characters opens. -/
theorem after?_sectionMark_lower (s : List Char) :
    Text.after? sectionMark (lowercase.apply s) = none := by
  rw [lowercase_apply]
  rcases hfound : Text.after? sectionMark (Text.lower s) with _ | rest
  · rfl
  · have hcapital : 'C' ∈ Text.lower s := by
      rw [Text.after?_eq_some_iff.1 hfound]
      simp [sectionMark]
    rcases List.mem_map.1 hcapital with ⟨c, -, hc⟩
    have hlower := toLower_toLower c
    rw [hc] at hlower
    cases hlower

/-- A document without the opening of a section in any case. -/
theorem lowercase_tellsSections {s : List Char}
    (h : ∀ piece, piece <:+: s → Text.sameIgnoringCase piece Opening.cdata.text = false) :
    lowercase.TellsSections s := by
  rintro t ht u rfl
  rw [after?_sectionMark_lower]
  rcases hfound : Text.after? sectionMark u with _ | rest
  · rfl
  · have hpiece : Opening.cdata.text <:+: s := by
      refine List.IsInfix.trans ⟨[], rest, ?_⟩ ht.isInfix
      rw [Text.after?_eq_some_iff.1 hfound]
      rfl
    have hsame := h _ hpiece
    simp [Text.sameIgnoringCase] at hsame

end Recoding

/-! ## Conditionals as comments -/

namespace Token.Kind

/-- The kind, with conditionals taken for comments. -/
def asComment : Token.Kind → Token.Kind
  | conditional data => comment data
  | kind => kind

theorem opens?_asComment (kind : Token.Kind) : kind.asComment.opens? = kind.opens? := by
  cases kind <;> rfl

theorem asComment_commentKind (data : List Char) :
    (commentKind data).asComment = .comment data := by
  unfold commentKind
  split <;> rfl

end Token.Kind

namespace Recoding

variable {r : Recoding} {o o' : Nat}

theorem SameKind.asComment {raw : List Char} {a b : Token.Kind} (h : r.SameKind o o' raw a b) :
    r.SameKind o o' raw a.asComment b.asComment := by
  cases h with
  | startTag selfClosing hname hitems => exact .startTag selfClosing hname hitems
  | endTag hname => exact .endTag hname
  | text => exact .text
  | comment data => exact .comment data
  | conditional data => exact .comment data
  | declaration data => exact .declaration data
  | cdata data element => exact .cdata data element

theorem SameLexeme.asComment {a b : Lexeme} (h : r.SameLexeme o o' a b) :
    r.SameLexeme o o' (a.relabel .asComment) (b.relabel .asComment) :=
  ⟨h.kind.asComment, h.raw, h.rest⟩

theorem readMarkup_asComment {op : Opening} (hop : op ≠ .cdata) (s : List Char) :
    r.SameLexeme o o' ((readMarkup o op s).relabel .asComment)
      ((readMarkup o' op (r.apply s)).relabel .asComment) := by
  have htext := apply_openingText (r := r) op hop
  cases op with
  | comment =>
    have hkind : ∀ raw data, r.SameKind o o' raw (commentKind data).asComment
        (commentKind (r.apply data)).asComment := by
      intro raw data
      rw [Token.Kind.asComment_commentKind, Token.Kind.asComment_commentKind]
      exact .comment data
    simp only [readMarkup, readComment_apply]
    exact sameLexeme_enclosed htext _ hkind
  | cdata => exact absurd rfl hop
  | conditional => exact (bounded_apply htext rfl (fun _ data => .conditional data) s).asComment
  | declaration => exact (bounded_apply htext rfl (fun _ data => .declaration data) s).asComment
  | instruction => exact (bounded_apply htext rfl (fun _ data => .comment data) s).asComment
  | endTag => exact (readEndTag_apply s).asComment
  | startTag => exact (readStartTag_apply s).asComment

/-- Tokens are read alike in lower case, but for conditionals. -/
theorem readToken_lowercase {s : List Char} (hsection : lowercase.TellsSection s) :
    lowercase.SameLexeme o o' ((readToken o s).relabel .asComment)
      ((readToken o' (lowercase.apply s)).relabel .asComment) := by
  simp only [readToken, opening?_apply hsection]
  cases hopening : opening? s with
  | none => exact (readText_apply s).asComment
  | some found =>
    rcases found with ⟨op, rest⟩
    refine readMarkup_asComment ?_ rest
    rintro rfl
    -- the section would open in lower case too
    have hmark := hsection (sectionMark ++ rest) (opening?_append hopening)
    rw [after?_sectionMark_lower, Text.after?_append] at hmark
    cases hmark

theorem scan_lowercase {source : List Char} (hsections : lowercase.TellsSections source) :
    lowercase.SameTokens 0 0 ((scan source).map (·.relabel .asComment))
      ((scan (lowercase.apply source)).map (·.relabel .asComment)) := by
  have hstart : lowercase.SameCursor (.atStart source) (.atStart (lowercase.apply source)) :=
    ⟨rfl, rfl⟩
  have hread : ∀ {a b : Cursor}, lowercase.SameCursor a b → lowercase.TellsSection a.rest →
      lowercase.SameLexeme a.offset b.offset (a.lexeme.relabel .asComment)
        (b.lexeme.relabel .asComment) := by
    intro a b h hsection
    rcases h.lexeme_cases with hcontent | ⟨ha, hb⟩
    · exact hcontent.asComment
    · rw [ha, hb]
      exact readToken_lowercase hsection
  have htokens := hstart.steps_relabel Token.Kind.opens?_asComment hread hsections
  simp only [scan, List.map_map]
  exact htokens

end Recoding

/-! ## Events -/

namespace Event

/-- What the event tells, with conditionals taken for comments. -/
def Detail.asComment : Detail → Detail
  | conditional data => comment data
  | detail => detail

/-- The event, with conditionals taken for comments. -/
def asComment (e : Event) : Event :=
  { e with detail := e.detail.asComment }

/-- What an event tells about the structure of its document: no text, and no difference between
comments and conditionals. -/
def shape (e : Event) : EventKind × Span × Location × Nat × Option (List Char) :=
  (e.asComment.kind, e.span, e.location, e.depth, e.tagName?)

theorem tagName?_asComment (e : Event) : e.asComment.tagName? = e.tagName? := by
  rcases e with ⟨detail, raw, span, location, depth⟩
  cases detail <;> rfl

theorem kind_of_asComment_eq {e f : Event} (h : e.asComment.kind = f.asComment.kind) :
    e.kind = f.kind ∨ e.kind = .comment ∧ f.kind = .conditional
      ∨ e.kind = .conditional ∧ f.kind = .comment := by
  have hkind : ∀ d : Event, d.asComment.kind = d.kind
      ∨ d.asComment.kind = .comment ∧ d.kind = .conditional := by
    intro d
    rcases d with ⟨detail, raw, span, location, depth⟩
    cases detail with
    | conditional data => exact .inr ⟨rfl, rfl⟩
    | _ => exact .inl rfl
  rcases hkind e with he | ⟨he, he'⟩
  · rcases hkind f with hf | ⟨hf, hf'⟩
    · exact .inl (by rw [← he, h, hf])
    · exact .inr (.inl ⟨by rw [← he, h, hf], hf'⟩)
  · rcases hkind f with hf | ⟨hf, hf'⟩
    · exact .inr (.inr ⟨he', by rw [← hf, ← h, he]⟩)
    · exact .inl (by rw [he', hf'])

end Event

theorem Walk.events_asComment (here : Walk) (t : Token) :
    here.events (t.relabel .asComment) = (here.events t).map Event.asComment := by
  rcases t with ⟨kind, raw, span⟩
  cases kind with
  | startTag name attributes selfClosing =>
    simp [Walk.events, Token.relabel, Token.Kind.asComment, Walk.events.event, Event.asComment,
      Event.Detail.asComment, Walk.attributeEvent]
  | _ => rfl

theorem Walk.after_asComment (here : Walk) (t : Token) :
    here.after (t.relabel .asComment) = here.after t := by
  rcases t with ⟨kind, raw, span⟩
  cases kind <;> rfl

theorem Walk.allEvents_asComment (here : Walk) (tokens : List Token) :
    here.allEvents (tokens.map (·.relabel .asComment))
        = (here.allEvents tokens).map Event.asComment
      ∧ here.afterAll (tokens.map (·.relabel .asComment)) = here.afterAll tokens := by
  induction tokens generalizing here with
  | nil => exact ⟨rfl, rfl⟩
  | cons t tokens ih =>
    rcases ih (here.after t) with ⟨hevents, hafter⟩
    refine ⟨?_, ?_⟩
    · rw [List.map_cons, Walk.allEvents_cons, Walk.allEvents_cons, List.map_append,
        Walk.after_asComment, hevents, ← Walk.events_asComment]
      rfl
    · have hfirst : here.afterAll ((t :: tokens).map (·.relabel .asComment))
          = (here.after (t.relabel .asComment)).afterAll (tokens.map (·.relabel .asComment)) := rfl
      rw [hfirst, Walk.after_asComment, hafter]
      rfl

theorem eventsOf_asComment (source : List Char) (tokens : List Token) :
    Recoding.eventsOf source (tokens.map (·.relabel .asComment))
      = (Recoding.eventsOf source tokens).map Event.asComment := by
  rcases (Walk.atStart source).allEvents_asComment tokens with ⟨hevents, hafter⟩
  simp only [Recoding.eventsOf, hevents, hafter, List.map_cons, List.map_append]
  rfl

/-! ## Spans -/

/-- The spans of a token and of its attributes. -/
def Token.spans (t : Token) : List Span :=
  t.span :: t.kind.attributes.map (·.span)

theorem Walk.map_span_events (here : Walk) (t : Token) :
    (here.events t).map (·.span) = t.spans := by
  unfold Walk.events Token.spans
  cases t.kind with
  | startTag name attributes selfClosing =>
    simp [Token.Kind.attributes, Walk.events.event, Walk.attributeEvent]
  | _ => rfl

theorem map_span_eventsOf (source : List Char) (tokens : List Token) :
    (Recoding.eventsOf source tokens).map (·.span)
      = ⟨0, 0⟩ :: (tokens.flatMap Token.spans
          ++ [⟨Text.byteLength source, Text.byteLength source⟩]) := by
  have hall : ∀ here : Walk, (here.allEvents tokens).map (·.span) = tokens.flatMap Token.spans := by
    induction tokens with
    | nil => exact fun _ => rfl
    | cons t tokens ih =>
      intro here
      rw [Walk.allEvents_cons, List.map_append, Walk.map_span_events, ih, List.flatMap_cons]
  simp only [Recoding.eventsOf, List.map_cons, List.map_append, hall]
  rfl

theorem flatMap_spans_asComment (tokens : List Token) :
    (tokens.map (·.relabel .asComment)).flatMap Token.spans = tokens.flatMap Token.spans := by
  rw [List.flatMap_map]
  refine List.flatMap_congr fun t _ => ?_
  rcases t with ⟨kind, raw, span⟩
  cases kind <;> rfl

namespace Recoding

variable {r : Recoding}

theorem SameKind.attributes {o o' : Nat} {raw : List Char} {a b : Token.Kind}
    (h : r.SameKind o o' raw a b) :
    List.Forall₂ (r.SamePlace o o' raw) a.attributes b.attributes := by
  cases h with
  | startTag selfClosing hname hitems => exact hitems
  | _ => exact .nil

/-- A recoding that keeps the length of texts keeps the spans of attributes. -/
theorem map_span_attributes (hlength : ∀ s, Text.byteLength (r.apply s) = Text.byteLength s)
    {o : Nat} {raw : List Char} {a b : List Attribute}
    (h : List.Forall₂ (r.SamePlace o o raw) a b) :
    a.map (·.span) = b.map (·.span) := by
  induction h with
  | nil => rfl
  | cons hplace _ ih =>
    rcases hplace with ⟨hitem, lead, rest, -, hspan, hspan'⟩
    simp only [List.map_cons, ih, hspan, hspan', hitem.raw, Span.ofText, hlength]

/-- A recoding that keeps the length of texts keeps spans. -/
theorem SameTokens.spans_eq (hlength : ∀ s, Text.byteLength (r.apply s) = Text.byteLength s)
    {o o' : Nat} (ho : o' = o) {a b : List Token} (h : r.SameTokens o o' a b) :
    a.flatMap Token.spans = b.flatMap Token.spans := by
  induction h with
  | nil => rfl
  | @cons o o' t u a b hspan hspan' hraw hkind _ ih =>
    subst ho
    -- equal offsets and equal lengths, so the next tokens start at equal offsets again
    have hsame : t.span = u.span := by
      simp only [hspan, hspan', hraw, Span.ofText, hlength]
    rw [List.flatMap_cons, List.flatMap_cons, Token.spans, Token.spans, hsame,
      map_span_attributes hlength hkind.attributes, ih (by rw [hsame])]

theorem SameEvent.tagName? {e f : Event} (h : r.SameEvent e f) : f.tagName? = e.tagName? := by
  have hdetail := h.detail
  unfold Event.tagName?
  generalize e.detail = detail at hdetail
  generalize f.detail = detail' at hdetail
  cases hdetail <;> rfl

/-- Events that are the same, but for conditionals, and have the same spans have the same shapes. -/
theorem map_shape_eq {a b : List Event}
    (h : List.Forall₂ r.SameEvent (a.map Event.asComment) (b.map Event.asComment))
    (hspans : a.map (·.span) = b.map (·.span)) : a.map Event.shape = b.map Event.shape := by
  rw [List.forall₂_map_left_iff, List.forall₂_map_right_iff] at h
  induction h with
  | nil => rfl
  | @cons e f a b hsame _ ih =>
    rcases List.cons.inj hspans with ⟨hspan, hspans⟩
    have htag := hsame.tagName?
    rw [Event.tagName?_asComment, Event.tagName?_asComment] at htag
    have hkind : f.asComment.kind = e.asComment.kind := hsame.detail.kind
    have hlocation : f.location = e.location := hsame.location
    have hdepth : f.depth = e.depth := hsame.depth
    have hshape : e.shape = f.shape := by
      simp only [Event.shape, hkind, hspan, hlocation, hdepth, htag]
    rw [List.map_cons, List.map_cons, hshape, ih hspans]

end Recoding

/-! ## Documents in different cases -/

/-- The document in lower case has events of the same shapes. -/
theorem map_shape_events_lower {source : List Char}
    (h : ∀ piece, piece <:+: source → Text.sameIgnoringCase piece Opening.cdata.text = false) :
    (events source).map Event.shape = (events (Text.lower source)).map Event.shape := by
  have htokens := Recoding.scan_lowercase (Recoding.lowercase_tellsSections h)
  have hraw : source = ((scan source).map (·.relabel .asComment)).flatMap (·.raw) := by
    rw [List.flatMap_map]
    exact (Cursor.flatMap_raw_steps (.atStart source)).symm
  have hevents := htokens.events Recoding.lowercase_keepsLocations hraw
  rw [eventsOf_asComment, eventsOf_asComment] at hevents
  have hlength : ∀ s, Text.byteLength (Recoding.lowercase.apply s) = Text.byteLength s := by
    intro s
    rw [Recoding.lowercase_apply, Text.byteLength_lower]
  have hspans := htokens.spans_eq hlength rfl
  rw [flatMap_spans_asComment, flatMap_spans_asComment] at hspans
  rw [← Recoding.lowercase_apply, ← Recoding.eventsOf_scan, ← Recoding.eventsOf_scan]
  refine Recoding.map_shape_eq hevents ?_
  rw [map_span_eventsOf, map_span_eventsOf, hspans, hlength]

/-- Two documents that differ in the case of letters only, and in which no section of characters
opens in any case, have as many events as each other, and these have one by one the same places,
depths and tag names. They have the same kinds too, but a comment may be a conditional in the other
document. -/
theorem events_of_lower_eq {d e : List Char} (hcase : Text.lower d = Text.lower e)
    (hd : ∀ piece, piece <:+: d → Text.sameIgnoringCase piece Opening.cdata.text = false)
    (he : ∀ piece, piece <:+: e → Text.sameIgnoringCase piece Opening.cdata.text = false) :
    List.Forall₂ (fun a b : Event =>
        a.span = b.span ∧ a.location = b.location ∧ a.depth = b.depth ∧ a.tagName? = b.tagName?
          ∧ (a.kind = b.kind ∨ a.kind = .comment ∧ b.kind = .conditional
            ∨ a.kind = .conditional ∧ b.kind = .comment))
      (events d) (events e) := by
  -- both documents have the same lower case
  have hshapes : (events d).map Event.shape = (events e).map Event.shape := by
    rw [map_shape_events_lower hd, map_shape_events_lower he, hcase]
  rw [← List.forall₂_eq_eq_eq, List.forall₂_map_left_iff, List.forall₂_map_right_iff] at hshapes
  refine hshapes.imp ?_
  intro a b hshape
  simp only [Event.shape, Prod.mk.injEq] at hshape
  rcases hshape with ⟨hkind, hspan, hlocation, hdepth, htag⟩
  exact ⟨hspan, hlocation, hdepth, htag, Event.kind_of_asComment_eq hkind⟩

/-- In a document without the letter D no section of characters opens. -/
theorem not_section_of_letter {source : List Char} (h : 'd' ∉ Text.lower source)
    (piece : List Char) (hpiece : piece <:+: source) :
    Text.sameIgnoringCase piece Opening.cdata.text = false := by
  rcases hsame : Text.sameIgnoringCase piece Opening.cdata.text with _ | _
  · rfl
  · have hlower : Text.lower piece = Text.lower Opening.cdata.text := by
      simpa [Text.sameIgnoringCase] using hsame
    have hletter : 'd' ∈ Text.lower piece := by
      rw [hlower]
      decide
    exact absurd (List.map_subset Char.toLower hpiece.subset hletter) h

/-- A paragraph with a conditional and a script, in capitals for the most part. -/
def paragraphInCapitals : List Char :=
  "<P Class=A><!--[if IE]--><BR><SCRIPT>x</P></Script>&</P>".toList

/-- The same paragraph in other letters, in which the conditional is a plain comment. -/
def paragraphInSmallLetters : List Char :=
  "<p class=a><!--[IF ie]--><br><script>X</p></sCRIPT>&</p>".toList

/-- The two paragraphs have the same structure, though not the same kinds of events. -/
theorem paragraphs_same_structure :
    List.Forall₂ (fun a b : Event =>
        a.span = b.span ∧ a.location = b.location ∧ a.depth = b.depth ∧ a.tagName? = b.tagName?
          ∧ (a.kind = b.kind ∨ a.kind = .comment ∧ b.kind = .conditional
            ∨ a.kind = .conditional ∧ b.kind = .comment))
      (events paragraphInCapitals) (events paragraphInSmallLetters)
    ∧ (events paragraphInCapitals).map Event.kind
      ≠ (events paragraphInSmallLetters).map Event.kind := by
  refine ⟨events_of_lower_eq ?_ ?_ ?_, ?_⟩
  · decide +kernel
  · exact not_section_of_letter (by decide +kernel)
  · exact not_section_of_letter (by decide +kernel)
  · decide +kernel

end HtmlLint
