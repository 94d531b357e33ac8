import HtmlLint.Event.Stream
import HtmlLint.Proofs.Layout
import HtmlLint.Proofs.Locating

/-!
# Every event knows its place

The text of an event is the slice of the document that its span names, its location is the one
found by counting from the start, and so is every location inside it. The events other than those
of attributes make up the document, and the events of a tag's attributes come right after the tag.

A walk carries its own locator from token to token. It only matters that the locator is sound and
belongs to the document (`Walk.ReadsFrom`), not where it stands.
-/

namespace HtmlLint

namespace Walk

/-- The walk's locator is a sound one of `source`. -/
def ReadsFrom (here : Walk) (source : List Char) : Prop :=
  here.locator.Sound ∧ here.locator.source = source

theorem atStart_readsFrom (source : List Char) : (atStart source).ReadsFrom source :=
  ⟨Locator.sound_atStart source, rfl⟩

variable {here : Walk} {source : List Char}

theorem ReadsFrom.locator_reach (h : here.ReadsFrom source) (offset : Nat) :
    (here.reach offset).locator = Locator.counted source offset := by
  rw [← h.2]
  exact h.1.locate_eq offset

theorem ReadsFrom.after (h : here.ReadsFrom source) (t : Token) :
    (here.after t).ReadsFrom source := by
  rcases h.1.locate t.span.start with ⟨hsound, hsource⟩
  exact ⟨hsound, hsource.trans h.2⟩

theorem ReadsFrom.afterAll (h : here.ReadsFrom source) (tokens : List Token) :
    (here.afterAll tokens).ReadsFrom source := by
  induction tokens generalizing here with
  | nil => exact h
  | cons t tokens ih => exact ih (h.after t)

/-- At the start of a text the walk knows the location of the text. -/
theorem ReadsFrom.location_reach (h : here.ReadsFrom source) {span : Span}
    {before raw : List Char} (hcovers : span.Covers source before raw) :
    (here.reach span.start).location = Location.start.after before := by
  rw [location, h.locator_reach, Locator.counted, hcovers.takeBytes_start]

end Walk

/-- The last event is located at the end of the document. -/
theorem location_finish (source : List Char) (tokens : List Token) :
    (finishEvent source ((Walk.atStart source).afterAll tokens)).location
      = Location.start.after source := by
  have hends : Span.Covers ⟨Text.byteLength source, Text.byteLength source⟩ source source [] :=
    ⟨⟨[], by simp⟩, rfl⟩
  exact ((Walk.atStart_readsFrom source).afterAll tokens).location_reach hends

/-! ## The events of a token -/

namespace Event

/-- What the events right after this one have to be: for a start tag, one for each attribute, with
the attribute's text and span. -/
def attributeParts (e : Event) : List (Event.Detail × List Char × Span) :=
  match e.detail with
  | .tagStart name attributes _ =>
    attributes.map fun item => (.attr name item, item.raw, item.span)
  | _ => []

/-- The events `items` are those of the attributes of `e`: one for each, in order, apart from each
other and inside of `e`. -/
structure HasAttributes (e : Event) (items : List Event) : Prop where
  parts : items.map (fun item => (item.detail, item.raw, item.span)) = e.attributeParts
  ordered : items.Pairwise fun a b => a.span.stop ≤ b.span.start
  inside : ∀ item ∈ items, e.span.start ≤ item.span.start ∧ item.span.stop ≤ e.span.stop

theorem HasAttributes.nil {e : Event} (h : e.attributeParts = []) : e.HasAttributes [] :=
  ⟨h.symm, .nil, by simp⟩

end Event

/-- The events of a token are one with the token's own text, which is not that of an attribute, and
one for each of its attributes. -/
theorem Walk.exists_events_eq (here : Walk) (t : Token) :
    ∃ e tag, here.events t = e :: t.kind.attributes.map (here.attributeEvent t tag)
      ∧ e.raw = t.raw ∧ e.span = t.span ∧ e.location = here.location ∧ e.kind ≠ .attr
      ∧ e.attributeParts
        = t.kind.attributes.map fun item => (.attr tag item, item.raw, item.span) := by
  unfold Walk.events
  cases t.kind with
  | startTag name attributes selfClosing =>
    exact ⟨_, Text.lower name, rfl, rfl, rfl, rfl, nofun, rfl⟩
  | _ => exact ⟨_, [], rfl, rfl, rfl, rfl, nofun, rfl⟩

/-- The events of a token that stands at its place. -/
theorem Walk.events_located {here : Walk} {source before : List Char} {t : Token}
    (hcovers : t.span.Covers source before t.raw)
    (hlocation : here.location = Location.start.after before)
    (hlaid : LaidOut t.span.start t.kind.attributes t.raw) :
    ∃ e items, here.events t = e :: items ∧ e.raw = t.raw ∧ e.kind ≠ .attr
      ∧ e.HasAttributes items ∧ ∀ f ∈ e :: items, f.Located source := by
  rcases here.exists_events_eq t with ⟨e, tag, hevents, hraw, hspan, hloc, hkind, hparts⟩
  -- the span of an attribute is the span of a piece of the tag
  have hpiece : ∀ item ∈ t.kind.attributes, ∃ lead rest, t.raw = lead ++ (item.raw ++ rest)
      ∧ item.span = .ofText (t.span.start + Text.byteLength lead) item.raw := by
    intro item hitem
    exact hlaid.exists_piece hitem
  refine ⟨e, t.kind.attributes.map (here.attributeEvent t tag), hevents, hraw, hkind, ?_, ?_⟩
  · refine ⟨?_, ?_, ?_⟩
    · rw [hparts, List.map_map]
      rfl
    · rw [List.pairwise_map]
      exact hlaid.pairwise
    · intro f hf
      rcases List.mem_map.1 hf with ⟨item, hitem, rfl⟩
      rcases hpiece item hitem with ⟨lead, rest, hlead, hitemSpan⟩
      have hstop : t.span.stop = t.span.start + Text.byteLength t.raw := by
        rw [hcovers.span]
        rfl
      rw [hlead, Text.byteLength_append, Text.byteLength_append] at hstop
      simp only [Walk.attributeEvent, hspan, hitemSpan, Span.ofText]
      omega
  · intro f hf
    rcases List.mem_cons.1 hf with rfl | hf
    · refine ⟨before, ?_, ?_⟩
      · rw [hspan, hraw]
        exact hcovers
      · rw [hloc, hlocation]
    · rcases List.mem_map.1 hf with ⟨item, hitem, rfl⟩
      rcases hpiece item hitem with ⟨lead, rest, hlead, hitemSpan⟩
      refine ⟨before ++ lead, hcovers.piece hlead hitemSpan, ?_⟩
      have hdistance : item.span.start - t.span.start = Text.byteLength lead := by
        simp [hitemSpan, Span.ofText]
      have htake : Text.takeBytes (Text.byteLength lead) t.raw = lead := by
        rw [hlead]
        exact Text.takeBytes_byteLength_append lead (item.raw ++ rest)
      rw [Walk.attributeEvent, hdistance, htake, hlocation, Location.after_append]

/-- The events of attributes have the kind of attributes. -/
theorem Event.HasAttributes.kind {e : Event} {items : List Event} (h : e.HasAttributes items) :
    ∀ item ∈ items, item.kind = .attr := by
  intro item hitem
  have hpart : (item.detail, item.raw, item.span) ∈ e.attributeParts := by
    rw [← h.parts]
    exact List.mem_map.2 ⟨item, hitem, rfl⟩
  unfold Event.attributeParts at hpart
  split at hpart
  · rcases List.mem_map.1 hpart with ⟨a, -, ha⟩
    have hdetail : item.detail = .attr _ a := (congrArg Prod.fst ha).symm
    rw [Event.kind, hdetail]
    rfl
  · cases hpart

/-! ## Groups of events -/

/-- The events at their places in groups: each group is an event that is not an attribute's,
followed by the events of its attributes. -/
inductive Grouped (source : List Char) : List Event → Prop where
  | nil : Grouped source []
  | cons {e : Event} {items list : List Event} (hkind : e.kind ≠ .attr)
      (hitems : e.HasAttributes items) (hlocated : ∀ f ∈ e :: items, f.Located source)
      (hlist : Grouped source list) : Grouped source (e :: (items ++ list))

namespace Grouped

variable {source : List Char} {list : List Event}

/-- An event without attributes is a group by itself. -/
theorem consAlone {e : Event} (hkind : e.kind ≠ .attr) (hparts : e.attributeParts = [])
    (hlocated : e.Located source) (h : Grouped source list) : Grouped source (e :: list) := by
  have hall : ∀ f ∈ [e], f.Located source := by simpa using hlocated
  exact .cons hkind (.nil hparts) hall h

theorem located (h : Grouped source list) : ∀ e ∈ list, e.Located source := by
  induction h with
  | nil => simp
  | cons _ _ hlocated _ ih =>
    intro f hf
    rw [← List.cons_append] at hf
    rcases List.mem_append.1 hf with hf | hf
    · exact hlocated f hf
    · exact ih f hf

theorem head_kind (h : Grouped source list) : ∀ e ∈ list.head?, (e.kind == .attr) = false := by
  cases h with
  | nil => simp
  | cons hkind => simpa using hkind

/-- What directly follows an event, up to the next one that is not an attribute's, are the events of
its attributes. -/
theorem hasAttributes (h : Grouped source list) {before after : List Event} {e : Event}
    (hsplit : list = before ++ e :: after) (hkind : e.kind ≠ .attr) :
    e.HasAttributes (after.takeWhile (·.kind == .attr)) := by
  induction h generalizing before with
  | nil => simp at hsplit
  | @cons e₀ items list _ hitems _ hlist ih =>
    have hattr : ∀ item ∈ items, (item.kind == .attr) = true := by
      intro item hitem
      simp [hitems.kind item hitem]
    cases before with
    | nil =>
      rcases List.cons.inj hsplit with ⟨rfl, rfl⟩
      have hstop : list.takeWhile (·.kind == .attr) = [] := by
        have hhead := hlist.head_kind
        cases list with
        | nil => rfl
        | cons f list => simp [hhead f rfl]
      rw [List.takeWhile_append_of_pos hattr, hstop, List.append_nil]
      exact hitems
    | cons f before =>
      -- `e` is no attribute's event, so it lies behind this group
      have htail : items ++ list = before ++ e :: after := (List.cons.inj hsplit).2
      rcases List.append_eq_append_iff.1 htail with ⟨gap, -, hgap⟩ | ⟨gap, hgap, hrest⟩
      · exact ih hgap
      · cases gap with
        | nil =>
          have hhere : list = [] ++ e :: after := hrest.symm
          exact ih hhere
        | cons f gap =>
          have hf : f = e := (List.cons.inj hrest).1.symm
          have hmem : e ∈ items := by simp [hgap, hf]
          exact absurd (hitems.kind e hmem) hkind

/-- The text of the events that are not attributes'. -/
theorem flatMap_raw_cons {e : Event} {items : List Event} (hkind : e.kind ≠ .attr)
    (hitems : e.HasAttributes items) (list : List Event) :
    ((e :: (items ++ list)).filter (·.kind != .attr)).flatMap (·.raw)
      = e.raw ++ (list.filter (·.kind != .attr)).flatMap (·.raw) := by
  have hnone : items.filter (·.kind != .attr) = [] := by
    rw [List.filter_eq_nil_iff]
    intro item hitem
    simp [hitems.kind item hitem]
  simp [List.filter_append, hnone, hkind]

end Grouped

/-! ## The events of a document -/

/-- Reading the tokens from a place on puts their events in front, in groups, and their texts are
what is left of the document. -/
theorem Cursor.StandsIn.grouped {cursor : Cursor} {source : List Char}
    (hin : cursor.StandsIn source) {walk : Walk} (hwalk : walk.ReadsFrom source)
    {tail : List Event} (htail : Grouped source tail) :
    Grouped source (walk.allEvents (cursor.steps.map (·.token)) ++ tail)
      ∧ ((walk.allEvents (cursor.steps.map (·.token)) ++ tail).filter
          (·.kind != .attr)).flatMap (·.raw)
        = cursor.rest ++ (tail.filter (·.kind != .attr)).flatMap (·.raw) := by
  induction cursor using Cursor.induction generalizing walk with
  | finished cursor hnone =>
    rw [Cursor.steps_of_none hnone, Cursor.rest_of_none hnone]
    exact ⟨htail, rfl⟩
  | step cursor step hsome ih =>
    rcases ih (hin.next hsome) (hwalk.after step.token) with ⟨hgroups, hraw⟩
    rcases hin.covers hsome with ⟨before, hcovers⟩
    have hlocation := hwalk.location_reach hcovers
    rcases Walk.events_located hcovers hlocation (Cursor.next?_laidOut hsome) with
      ⟨e, items, hevents, heraw, hkind, hitems, hlocated⟩
    have hlist : walk.allEvents (cursor.steps.map (·.token)) ++ tail
        = e :: (items ++ ((walk.after step.token).allEvents (step.next.steps.map (·.token))
          ++ tail)) := by
      rw [Cursor.steps_of_some hsome, List.map_cons, Walk.allEvents_cons, hevents]
      simp
    rw [hlist]
    refine ⟨.cons hkind hitems hlocated hgroups, ?_⟩
    rw [Grouped.flatMap_raw_cons hkind hitems, hraw, heraw, ← Cursor.next?_append hsome,
      List.append_assoc]

/-- The events of a document come in groups, and their texts make it up. -/
theorem events_grouped (source : List Char) :
    Grouped source (events source)
      ∧ ((events source).filter (·.kind != .attr)).flatMap (·.raw) = source := by
  have hwalk := Walk.atStart_readsFrom source
  have hends : Span.Covers ⟨Text.byteLength source, Text.byteLength source⟩ source source [] :=
    ⟨⟨[], by simp⟩, rfl⟩
  have hfinish : Grouped source
      [finishEvent source ((Walk.atStart source).afterAll (scan source))] := by
    refine .consAlone nofun rfl ⟨source, hends, ?_⟩ .nil
    exact (hwalk.afterAll (scan source)).location_reach hends
  rcases (Cursor.atStart_standsIn source).grouped hwalk hfinish with ⟨hgroups, hraw⟩
  have hstart : startEvent.Located source := ⟨[], ⟨⟨source, rfl⟩, rfl⟩, rfl⟩
  refine ⟨.consAlone nofun rfl hstart hgroups, ?_⟩
  calc
    ((events source).filter (·.kind != .attr)).flatMap (·.raw)
        = source ++ [] := hraw
    _ = source := List.append_nil source

/-- Every event of a document has the text that its span names, the location of its start, and the
locations of all its offsets, as counting from the start of the document gives them. The events
that are not attributes' make up the document; right after each come those of its attributes. -/
theorem events_know_their_place (source : List Char) :
    (∀ e ∈ events source,
      e.span.start ≤ e.span.stop
        ∧ Text.isBoundary source e.span.start = true
        ∧ Text.isBoundary source e.span.stop = true
        ∧ e.raw = e.span.slice source
        ∧ e.location = Location.start.after (Text.takeBytes e.span.start source)
        ∧ ∀ k, e.locate k = Location.start.after
            (Text.takeBytes (e.span.start + Text.floorBoundary e.raw k) source))
      ∧ ((events source).filter (·.kind != .attr)).flatMap (·.raw) = source
      ∧ ∀ before e after, events source = before ++ e :: after → e.kind ≠ .attr →
          e.HasAttributes (after.takeWhile (·.kind == .attr)) := by
  rcases events_grouped source with ⟨hgroups, hraw⟩
  refine ⟨?_, hraw, ?_⟩
  · intro e he
    have hlocated := hgroups.located e he
    rcases hgroups.located e he with ⟨before, hcovers, -⟩
    rcases hcovers.boundaries with ⟨hle, hstart, hstop⟩
    exact ⟨hle, hstart, hstop, hcovers.slice_eq.symm, hlocated.location_eq, hlocated.locate_eq⟩
  · intro before e after hsplit hkind
    exact hgroups.hasAttributes hsplit hkind

/-- In `<p a>`, a line feed and `é`, the document ends at the second column of line two, eight bytes
in, and no attribute comes before the tag. -/
theorem finish_place_after_line :
    (∃ e ∈ events ['<', 'p', ' ', 'a', '>', '\n', 'é'],
        e.kind = .finish ∧ e.span = ⟨8, 8⟩ ∧ e.location = ⟨2, 2⟩)
      ∧ startEvent.HasAttributes
        ((events ['<', 'p', ' ', 'a', '>', '\n', 'é']).tail.takeWhile (·.kind == .attr)) := by
  rcases events_know_their_place ['<', 'p', ' ', 'a', '>', '\n', 'é'] with ⟨hplace, -, hattributes⟩
  refine ⟨?_, hattributes [] startEvent _ rfl nofun⟩
  refine ⟨_, List.mem_cons_of_mem _ (List.mem_append_right _ List.mem_cons_self), rfl, rfl, ?_⟩
  rw [(hplace _ (List.mem_cons_of_mem _
    (List.mem_append_right _ List.mem_cons_self))).2.2.2.2.1]
  decide

end HtmlLint
