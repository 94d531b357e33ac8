import HtmlLint.Event.Stream
import HtmlLint.Proofs.Bytes.Agreement
import HtmlLint.Proofs.Layout
import HtmlLint.Proofs.Locating

/-!
# No slice fails

Wherever a document or a part of it is sliced, the ends of the slice are boundaries: when its tokens
are read, when their attributes are located, and when an offset is turned into a location. Each of
these has a form here that slices with `Span.slice?` and so can fail; none of them ever does, and
what they answer is what the total functions do.

* `Tracker` — a locator that slices from its last answer to the next one.
* `Token.leadTo?` — the text of a tag up to one of its attributes.
* `Event.locate?` — the location of an offset in the text of an event.
-/

namespace HtmlLint

/-! ## Spans of outlines -/

/-- The results of a run that does not fail are those of its items. -/
theorem exists_of_mapM_eq_some {α β : Type} {f : α → Option β} {as : List α} {bs : List β}
    (h : as.mapM f = some bs) {a : α} (ha : a ∈ as) : ∃ b ∈ bs, f a = some b := by
  induction as generalizing bs with
  | nil => cases ha
  | cons first as ih =>
    simp only [List.mapM_cons, Option.bind_eq_bind, Option.bind_eq_some_iff] at h
    rcases h with ⟨b, hb, others, hothers, hbs⟩
    obtain rfl : b :: others = bs := Option.some.inj hbs
    rcases List.mem_cons.1 ha with rfl | hlater
    · exact ⟨b, List.mem_cons_self, hb⟩
    · rcases ih hothers hlater with ⟨c, hc, hfound⟩
      exact ⟨c, List.mem_cons_of_mem b hc, hfound⟩

variable {source : List Char}

theorem AttributeOutline.fill?_eq_some {o : AttributeOutline} {a : Attribute}
    (h : o.fill? source = some a) :
    a.span = o.span ∧ ∀ span ∈ o.spans, span.Sliceable (Text.bytes source) := by
  simp only [fill?, Option.bind_eq_bind, Option.bind_eq_some_iff] at h
  rcases h with ⟨name, hname, value, hvalue, raw, hraw, hitem⟩
  refine ⟨?_, ?_⟩
  · rw [← Option.some.inj hitem]
  · intro span hspan
    simp only [spans, List.mem_cons, List.mem_append, Option.mem_toList, List.not_mem_nil,
      or_false] at hspan
    rcases hspan with rfl | hspan | rfl
    · exact Span.sliceable_of_slice? hname
    · rw [sliceValue?, Option.mem_def.1 hspan] at hvalue
      exact Span.sliceable_of_slice? hvalue
    · exact Span.sliceable_of_slice? hraw

theorem OutlineKind.fill?_eq_some {o : OutlineKind} {kind : Token.Kind}
    (h : o.fill? source = some kind) :
    (o.attributes.mapM (AttributeOutline.fill? source) = some kind.attributes)
      ∧ ∀ span ∈ o.spans, span.Sliceable (Text.bytes source) := by
  have hsingle : ∀ {inner : Span} {make : List Char → Token.Kind},
      (inner.slice? source).map make = some kind → ∃ data, make data = kind
        ∧ ∀ span ∈ [inner], span.Sliceable (Text.bytes source) := by
    intro inner make hmade
    rcases Option.map_eq_some_iff.1 hmade with ⟨data, hdata, hmake⟩
    refine ⟨data, hmake, ?_⟩
    intro span hspan
    rw [List.mem_singleton.1 hspan]
    exact Span.sliceable_of_slice? hdata
  cases o with
  | startTag name attributes selfClosing =>
    simp only [fill?, Option.bind_eq_bind, Option.bind_eq_some_iff] at h
    rcases h with ⟨text, hname, items, hitems, hkind⟩
    obtain rfl := Option.some.inj hkind
    refine ⟨hitems, ?_⟩
    intro span hspan
    rcases List.mem_cons.1 hspan with rfl | hspan
    · exact Span.sliceable_of_slice? hname
    · rcases List.mem_flatMap.1 hspan with ⟨a, ha, hin⟩
      rcases exists_of_mapM_eq_some hitems ha with ⟨item, -, hitem⟩
      exact (AttributeOutline.fill?_eq_some hitem).2 span hin
  | text =>
    obtain rfl := Option.some.inj h
    exact ⟨rfl, List.forall_mem_nil _⟩
  | _ =>
    rcases hsingle h with ⟨data, rfl, hspans⟩
    exact ⟨rfl, hspans⟩

theorem Outline.fill?_eq_some {o : Outline} {t : Token} (h : o.fill? source = some t) :
    t.span = o.span ∧ (o.kind.attributes.mapM (AttributeOutline.fill? source)
      = some t.kind.attributes) ∧ ∀ span ∈ o.spans, span.Sliceable (Text.bytes source) := by
  simp only [fill?, Option.bind_eq_bind, Option.bind_eq_some_iff] at h
  rcases h with ⟨kind, hkind, raw, hraw, hitem⟩
  obtain rfl := Option.some.inj hitem
  rcases OutlineKind.fill?_eq_some hkind with ⟨hattributes, hspans⟩
  refine ⟨rfl, hattributes, ?_⟩
  intro span hspan
  rcases List.mem_cons.1 hspan with rfl | hspan
  · exact Span.sliceable_of_slice? hraw
  · exact hspans span hspan

/-! ## Attributes in their tags -/

/-- The text of a tag up to one of its attributes. It fails when the attribute starts before the
tag, or when the tag cannot be sliced there. -/
def Token.leadTo? (t : Token) (a : Attribute) : Option (List Char) :=
  if t.span.start ≤ a.span.start then
    Span.slice? ⟨0, a.span.start - t.span.start⟩ t.raw
  else none

theorem LaidOut.leadTo?_eq {t : Token} (h : LaidOut t.span.start t.kind.attributes t.raw)
    {a : Attribute} (ha : a ∈ t.kind.attributes) :
    t.leadTo? a = some (Text.takeBytes (a.span.start - t.span.start) t.raw) := by
  rcases h.exists_piece ha with ⟨lead, rest, hraw, hspan⟩
  have hdistance : a.span.start - t.span.start = Text.byteLength lead := by
    rw [hspan]
    exact Nat.add_sub_cancel_left _ _
  have hcovers : Span.Covers ⟨0, Text.byteLength lead⟩ t.raw [] lead := by
    refine ⟨⟨a.raw ++ rest, hraw⟩, ?_⟩
    simp [Span.ofText]
  rw [Token.leadTo?, if_pos (h.inside ha).1, hdistance, hcovers.slice?_eq, hraw,
    Text.takeBytes_byteLength_append]

theorem laidOut_of_mem_scan {t : Token} (ht : t ∈ scan source) :
    LaidOut t.span.start t.kind.attributes t.raw ∧ t.span = .ofText t.span.start t.raw := by
  rcases exists_cursor_of_mem_scan ht with ⟨here, -, hmore, rfl⟩
  exact ⟨Cursor.next?_laidOut (Cursor.next?_of_ne_nil hmore), rfl⟩

/-! ## Locations -/

/-- A boundary not after an offset is always found. -/
theorem Text.floor?_min (s : List Char) (n : Nat) :
    floor? (bytes s) (min n (bytes s).length) = some (floorBoundary s n) := by
  rw [floor?_bytes, length_bytes, floorBoundary_min]

/-- From a boundary to the last one not after a later offset, a text can be sliced. -/
theorem Span.slice?_floorBoundary {passed : List Char} {n : Nat} (h : Text.byteLength passed ≤ n)
    (ahead : List Char) :
    slice? ⟨Text.byteLength passed, Text.floorBoundary (passed ++ ahead) n⟩ (passed ++ ahead)
      = some (Text.takeBytes (n - Text.byteLength passed) ahead) := by
  have hcovers : Covers ⟨Text.byteLength passed, Text.floorBoundary (passed ++ ahead) n⟩
      (passed ++ ahead) passed (Text.takeBytes (n - Text.byteLength passed) ahead) := by
    refine ⟨⟨Text.dropBytes (n - Text.byteLength passed) ahead, ?_⟩, ?_⟩
    · rw [Text.takeBytes_append_dropBytes]
    · rw [Text.floorBoundary, Text.takeBytes_append h, Text.byteLength_append]
      rfl
  exact hcovers.slice?_eq

theorem Span.slice?_zero_floorBoundary (s : List Char) (n : Nat) :
    slice? ⟨0, Text.floorBoundary s n⟩ s = some (Text.takeBytes n s) := by
  have hstart : Text.byteLength [] ≤ n := Nat.zero_le n
  exact slice?_floorBoundary hstart s

/-- Answers locations of offsets in `source`, from the last offset on where it can. -/
structure Tracker where
  source : List Char
  offset : Nat
  location : Location

namespace Tracker

def atStart (source : List Char) : Tracker :=
  ⟨source, 0, .start⟩

/-- The tracker at the place of a locator. -/
def ofLocator (here : Locator) : Tracker :=
  ⟨here.source, here.offset, here.location⟩

/-- Moves on to `target`. It fails when the document cannot be sliced from here to there. -/
def forward? (here : Tracker) (target : Nat) : Option Tracker := do
  let skipped ← Span.slice? ⟨here.offset, target⟩ here.source
  return ⟨here.source, target, here.location.after skipped⟩

/-- Moves to the last boundary not after `target`, and starts over when that lies before the last
answer. It fails when no boundary is found. -/
def locate? (here : Tracker) (target : Nat) : Option Tracker := do
  let bytes := Text.bytes here.source
  let stop ← Text.floor? bytes (min target bytes.length)
  if stop < here.offset then (atStart here.source).forward? stop else here.forward? stop

theorem forward?_ofLocator {here : Locator} (h : here.Sound) {target : Nat}
    (hle : here.offset ≤ target) :
    (ofLocator here).forward? (Text.floorBoundary here.source target)
      = some (ofLocator (.counted here.source target)) := by
  rcases h with ⟨passed, hsource, hoffset, hlocation⟩
  rw [hoffset] at hle
  simp only [forward?, ofLocator, hsource, hoffset, hlocation, Span.slice?_floorBoundary hle,
    Locator.counted, Text.takeBytes_append hle, Location.after_append]
  rfl

/-- One question is answered as by the locator. -/
theorem locate?_ofLocator {here : Locator} (h : here.Sound) (target : Nat) :
    (ofLocator here).locate? target = some (ofLocator (here.locate target)) := by
  have hfloor : (ofLocator here).locate? target
      = if Text.floorBoundary here.source target < here.offset
        then (atStart here.source).forward? (Text.floorBoundary here.source target)
        else (ofLocator here).forward? (Text.floorBoundary here.source target) := by
    simp only [locate?, ofLocator, Text.floor?_min, Option.bind_eq_bind, Option.bind_some]
    rfl
  rw [hfloor, h.locate_eq]
  rcases Nat.lt_or_ge target here.offset with hback | hon
  · have hbefore : Text.floorBoundary here.source target < here.offset :=
      Nat.lt_of_le_of_lt (Text.byteLength_takeBytes_le target here.source) hback
    rw [if_pos hbefore]
    exact forward?_ofLocator (Locator.sound_atStart here.source) (Nat.zero_le target)
  · -- the locator stands at a boundary, so the last one up to the offset is not before it
    have hreached : ¬ Text.floorBoundary here.source target < here.offset := by
      rcases h with ⟨passed, hsource, hoffset, -⟩
      rw [hoffset] at hon ⊢
      rw [hsource, Text.floorBoundary, Text.takeBytes_append hon, Text.byteLength_append]
      omega
    rw [if_neg hreached]
    exact forward?_ofLocator h hon

/-- Any questions, in any order, are answered as by the locator. -/
theorem foldlM_locate? (offsets : List Nat) {here : Locator} (h : here.Sound) :
    offsets.foldlM locate? (ofLocator here)
      = some (ofLocator (offsets.foldl Locator.locate here)) := by
  induction offsets generalizing here with
  | nil => rfl
  | cons target offsets ih =>
    rw [List.foldlM_cons, locate?_ofLocator h, List.foldl_cons]
    exact ih (h.locate target).1

end Tracker

/-- The location `offset` bytes into the text of the event. It fails when no boundary is found, or
when the text cannot be sliced there. -/
def Event.locate? (e : Event) (offset : Nat) : Option Location := do
  let bytes := Text.bytes e.raw
  let stop ← Text.floor? bytes (min offset bytes.length)
  let lead ← Span.slice? ⟨0, stop⟩ e.raw
  return e.location.after lead

theorem Event.locate?_eq (e : Event) (offset : Nat) :
    e.locate? offset = some (e.locate offset) := by
  simp only [locate?, Text.floor?_min, Option.bind_eq_bind, Option.bind_some,
    Span.slice?_zero_floorBoundary]
  rfl

/-! ## Documents -/

/-- An attribute that is outlined lies within the token that is outlined with it. -/
theorem Outline.attributes_inside {o : Outline} (ho : o ∈ outlines (Text.bytes source))
    {a : AttributeOutline} (ha : a ∈ o.kind.attributes) :
    o.span.start ≤ a.span.start ∧ a.span.stop ≤ o.span.stop := by
  rcases exists_of_mapM_eq_some (mapM_fill?_outlines source) ho with ⟨t, ht, hfill⟩
  rcases Outline.fill?_eq_some hfill with ⟨hspan, hattributes, -⟩
  rcases exists_of_mapM_eq_some hattributes ha with ⟨item, hitem, hfound⟩
  rcases laidOut_of_mem_scan ht with ⟨hlaid, htext⟩
  have hinside := hlaid.inside hitem
  rw [(AttributeOutline.fill?_eq_some hfound).1] at hinside
  rw [← hspan, htext]
  exact hinside

/-- No slice fails, for any document and any offset. The outlines found by going through the bytes
can be filled in to the tokens; every span in them has its ends at boundaries, and those of
attributes lie in their tags; the text up to an attribute can be sliced off its tag; and locations
are found for all offsets, of the document and of the text of an event. -/
theorem slices_never_fail (source : List Char) :
    (outlines (Text.bytes source)).mapM (Outline.fill? source) = some (scan source)
      ∧ (∀ o ∈ outlines (Text.bytes source),
        (∀ span ∈ o.spans, span.Sliceable (Text.bytes source))
          ∧ ∀ a ∈ o.kind.attributes, o.span.start ≤ a.span.start ∧ a.span.stop ≤ o.span.stop)
      ∧ (∀ t ∈ scan source, ∀ a ∈ t.kind.attributes, ∀ (here : Walk) (tag : List Char),
        (t.leadTo? a).map here.location.after = some (here.attributeEvent t tag a).location)
      ∧ (∀ offsets : List Nat, offsets.foldlM Tracker.locate? (.atStart source)
        = some (.ofLocator (offsets.foldl Locator.locate (.atStart source))))
      ∧ ∀ (e : Event) (offset : Nat), e.locate? offset = some (e.locate offset) := by
  refine ⟨mapM_fill?_outlines source, ?_, ?_, ?_, Event.locate?_eq⟩
  · intro o ho
    rcases exists_of_mapM_eq_some (mapM_fill?_outlines source) ho with ⟨t, -, hfill⟩
    exact ⟨(Outline.fill?_eq_some hfill).2.2, fun a ha => Outline.attributes_inside ho ha⟩
  · intro t ht a ha here tag
    rw [(laidOut_of_mem_scan ht).1.leadTo?_eq ha]
    rfl
  · intro offsets
    exact Tracker.foldlM_locate? offsets (Locator.sound_atStart source)

/-- In `é<p ü='ß<b>` the name of the attribute starts with the first byte of `ü`, and its value is
cut where `<b>` opens. Offsets 1, 6 and 10 lie inside of characters; no span ends there, and they
are located at the start of their characters. -/
theorem slices_in_cut_value :
    let source := "é<p ü='ß<b>".toList
    let tag : Outline :=
      ⟨.startTag ⟨3, 4⟩ [⟨⟨5, 7⟩, some ⟨9, 11⟩, .single, ⟨5, 11⟩⟩] false, ⟨2, 11⟩⟩
    tag ∈ outlines (Text.bytes source)
      ∧ (∀ span ∈ tag.spans, span.Sliceable (Text.bytes source))
      ∧ (∀ n ∈ [1, 6, 10], Text.isByteBoundary (Text.bytes source) n = false)
      ∧ ([10, 1, 6].foldlM Tracker.locate? (.atStart source)).map (·.location) = some ⟨1, 5⟩ := by
  intro source tag
  have htag : tag ∈ outlines (Text.bytes source) := by decide +kernel
  rcases slices_never_fail source with ⟨-, houtlines, -, htracker, -⟩
  refine ⟨htag, (houtlines tag htag).1, by decide +kernel, ?_⟩
  rw [htracker]
  decide +kernel

end HtmlLint
