import HtmlLint.Proofs.EventPlaces
import HtmlLint.Proofs.Recoding.Tokens

/-!
# Recoding events

A recoding that leaves every location where it is gives the same events: the same kinds in the same
order, at the same locations and depths, with their texts recoded. Only spans differ.

* `Recoding.KeepsLocations` — a recoded text ends at the same line and column as the text.
* `Recoding.SameEvent` — one event before and after.
-/

namespace HtmlLint

namespace Recoding

variable {r : Recoding} {o o' : Nat}

/-- A text and the recoded text end at the same location, wherever they start. -/
def KeepsLocations (r : Recoding) : Prop :=
  ∀ (here : Location) (s : List Char), here.after (r.apply s) = here.after s

/-- What an event tells, and what it tells after a recoding. The names of tags are the same, and
there is no space in them. -/
inductive SameDetail (r : Recoding) : Event.Detail → Event.Detail → Prop where
  | start : SameDetail r .start .start
  | tagStart {name : List Char} {a b : List Attribute} (selfClosing : Bool)
      (hname : ∀ c ∈ name, isSpace c = false) (hitems : List.Forall₂ r.SameAttribute a b) :
      SameDetail r (.tagStart name a selfClosing) (.tagStart name b selfClosing)
  | tagEnd (name : List Char) : SameDetail r (.tagEnd name) (.tagEnd name)
  | attr (tag : List Char) {a b : Attribute} (hitem : r.SameAttribute a b) :
      SameDetail r (.attr tag a) (.attr tag b)
  | text : SameDetail r .text .text
  | comment (data : List Char) : SameDetail r (.comment data) (.comment (r.apply data))
  | conditional (data : List Char) : SameDetail r (.conditional data) (.conditional (r.apply data))
  | declaration (data : List Char) : SameDetail r (.declaration data) (.declaration (r.apply data))
  | cdata (data : List Char) (element : Option RawElement) :
      SameDetail r (.cdata data element) (.cdata (r.apply data) element)
  | finish : SameDetail r .finish .finish

/-- An event and the event of the recoded document in its place. -/
structure SameEvent (r : Recoding) (e f : Event) : Prop where
  detail : r.SameDetail e.detail f.detail
  raw : f.raw = r.apply e.raw
  location : f.location = e.location
  depth : f.depth = e.depth

theorem SameDetail.kind {a b : Event.Detail} (h : r.SameDetail a b) : b.kind = a.kind := by
  cases h <;> rfl

/-- Locating inside an event, at the recoded piece, finds the same location. -/
theorem SameEvent.locate {e f : Event} (h : r.SameEvent e f) (hlines : r.KeepsLocations)
    {lead rest : List Char} (hraw : e.raw = lead ++ rest) :
    f.locate (Text.byteLength (r.apply lead)) = e.locate (Text.byteLength lead) := by
  rw [Event.locate, Event.locate, h.raw, h.location, hraw, apply_append,
    Text.takeBytes_byteLength_append, Text.takeBytes_byteLength_append, hlines]

/-! ## The events of a token -/

theorem SamePlace.sameEvent (hlines : r.KeepsLocations) {here there : Walk} {t u : Token}
    (hlocation : there.location = here.location) (hinside : there.inside = here.inside)
    (hstart : t.span.start = o) (hstart' : u.span.start = o') (hraw : u.raw = r.apply t.raw)
    (tag : List Char) {a b : Attribute} (h : r.SamePlace o o' t.raw a b) :
    r.SameEvent (here.attributeEvent t tag a) (there.attributeEvent u tag b) := by
  rcases h with ⟨hitem, lead, rest, hlead, hspan, hspan'⟩
  have hdistance : a.span.start - t.span.start = Text.byteLength lead := by
    simp [hspan, hstart, Span.ofText]
  have hdistance' : b.span.start - u.span.start = Text.byteLength (r.apply lead) := by
    simp [hspan', hstart', Span.ofText]
  have hbefore : Text.takeBytes (Text.byteLength lead) t.raw = lead := by
    rw [hlead, Text.takeBytes_byteLength_append]
  have hbefore' : Text.takeBytes (Text.byteLength (r.apply lead)) u.raw = r.apply lead := by
    rw [hraw, hlead, apply_append, Text.takeBytes_byteLength_append]
  refine ⟨.attr tag hitem, hitem.raw, ?_, ?_⟩
  · simp only [Walk.attributeEvent, hdistance, hdistance', hbefore, hbefore', hlocation]
    exact hlines here.location lead
  · simp only [Walk.attributeEvent, hinside]

theorem SameKind.sameEvents (hlines : r.KeepsLocations) {here there : Walk} {t u : Token}
    (hlocation : there.location = here.location) (hinside : there.inside = here.inside)
    (hstart : t.span.start = o) (hstart' : u.span.start = o') (hraw : u.raw = r.apply t.raw)
    (h : r.SameKind o o' t.raw t.kind u.kind) :
    List.Forall₂ r.SameEvent (here.events t) (there.events u) := by
  have hdepth : there.inside.length = here.inside.length := by rw [hinside]
  unfold Walk.events
  generalize t.kind = kind at h
  generalize u.kind = kind' at h
  cases h with
  | @startTag name a b selfClosing hname hitems =>
    have htag : Text.lower (r.apply name) = Text.lower name := lower_apply hname
    simp only [htag]
    refine .cons ⟨.tagStart selfClosing (not_isSpace_of_mem_lower hname) ?_, hraw, hlocation,
      hdepth⟩ ?_
    · exact hitems.imp fun _ _ hplace => hplace.1
    · rw [List.forall₂_map_left_iff, List.forall₂_map_right_iff]
      exact hitems.imp fun _ _ hplace =>
        hplace.sameEvent hlines hlocation hinside hstart hstart' hraw _
  | endTag hname =>
    simp only [lower_apply hname, hinside]
    exact .cons ⟨.tagEnd _, hraw, hlocation, rfl⟩ .nil
  | text => exact .cons ⟨.text, hraw, hlocation, hdepth⟩ .nil
  | comment data => exact .cons ⟨.comment data, hraw, hlocation, hdepth⟩ .nil
  | conditional data => exact .cons ⟨.conditional data, hraw, hlocation, hdepth⟩ .nil
  | declaration data => exact .cons ⟨.declaration data, hraw, hlocation, hdepth⟩ .nil
  | cdata data element => exact .cons ⟨.cdata data element, hraw, hlocation, hdepth⟩ .nil

theorem SameKind.insideAfter {here there : Walk} {t u : Token}
    (hinside : there.inside = here.inside) (h : r.SameKind o o' t.raw t.kind u.kind) :
    there.insideAfter u = here.insideAfter t := by
  unfold Walk.insideAfter
  generalize t.kind = kind at h
  generalize u.kind = kind' at h
  cases h with
  | startTag selfClosing hname => simp only [lower_apply hname, hinside]
  | endTag hname => simp only [lower_apply hname, hinside]
  | _ => exact hinside

/-! ## The events of a document -/

/-- Two walks over tokens in step, the left one past the text `passed`, give the same events and
leave the same elements open. -/
theorem SameTokens.allEvents (hlines : r.KeepsLocations) {a b : List Token}
    (h : r.SameTokens o o' a b) {source passed : List Char} {here there : Walk}
    (hsource : source = passed ++ a.flatMap (·.raw)) (hoffset : o = Text.byteLength passed)
    (hoffset' : o' = Text.byteLength (r.apply passed)) (hhere : here.ReadsFrom source)
    (hthere : there.ReadsFrom (r.apply source)) (hinside : there.inside = here.inside) :
    List.Forall₂ r.SameEvent (here.allEvents a) (there.allEvents b)
      ∧ (there.afterAll b).inside = (here.afterAll a).inside := by
  induction h generalizing passed here there with
  | nil => exact ⟨.nil, hinside⟩
  | @cons o o' t u a b hspan hspan' hraw hkind _ ih =>
    rw [List.flatMap_cons] at hsource
    have hcovers : t.span.Covers source passed t.raw := by
      refine ⟨⟨_, hsource⟩, ?_⟩
      rw [hspan, hoffset]
    have hcovers' : u.span.Covers (r.apply source) (r.apply passed) u.raw := by
      refine ⟨⟨r.apply (a.flatMap (·.raw)), ?_⟩, ?_⟩
      · rw [hsource, hraw, apply_append, apply_append]
      · rw [hspan', hoffset']
    -- both walks reach the start of the token at the location of the text passed
    have hlocation : (there.reach u.span.start).location = (here.reach t.span.start).location := by
      rw [hhere.location_reach hcovers, hthere.location_reach hcovers', hlines]
    have hstart : t.span.start = o := by rw [hspan]; rfl
    have hstart' : u.span.start = o' := by rw [hspan']; rfl
    have hevents : List.Forall₂ r.SameEvent ((here.reach t.span.start).events t)
        ((there.reach u.span.start).events u) :=
      hkind.sameEvents hlines hlocation hinside hstart hstart' hraw
    have hinsideNext : (there.after u).inside = (here.after t).inside := hkind.insideAfter hinside
    have hrest := @ih (passed ++ t.raw) (here.after t) (there.after u)
      (by rw [hsource, List.append_assoc])
      (by rw [hspan, hoffset, Text.byteLength_append]; rfl)
      (by rw [hspan', hoffset', hraw, apply_append, Text.byteLength_append]; rfl)
      (hhere.after t) (hthere.after u) hinsideNext
    rw [Walk.allEvents_cons, Walk.allEvents_cons]
    exact ⟨List.rel_append hevents hrest.1, hrest.2⟩

/-- The events of a document that is cut into these tokens. -/
def eventsOf (source : List Char) (tokens : List Token) : List Event :=
  startEvent :: ((Walk.atStart source).allEvents tokens
    ++ [finishEvent source ((Walk.atStart source).afterAll tokens)])

theorem eventsOf_scan (source : List Char) :
    eventsOf source (scan source) = HtmlLint.events source :=
  rfl

/-- Tokens in step give the same events, one by one. -/
theorem SameTokens.events (hlines : r.KeepsLocations) {a b : List Token}
    (h : r.SameTokens 0 0 a b) {source : List Char} (hsource : source = a.flatMap (·.raw)) :
    List.Forall₂ r.SameEvent (eventsOf source a) (eventsOf (r.apply source) b) := by
  have hscan : source = [] ++ a.flatMap (·.raw) := hsource
  rcases h.allEvents hlines hscan rfl rfl (Walk.atStart_readsFrom source)
    (Walk.atStart_readsFrom (r.apply source)) rfl with ⟨hevents, hinside⟩
  have hstart : r.SameEvent startEvent startEvent := ⟨.start, rfl, rfl, rfl⟩
  have hfinish : r.SameEvent (finishEvent source ((Walk.atStart source).afterAll a))
      (finishEvent (r.apply source) ((Walk.atStart (r.apply source)).afterAll b)) := by
    refine ⟨.finish, rfl, ?_, congrArg List.length hinside⟩
    rw [location_finish, location_finish, hlines]
  exact .cons hstart (List.rel_append hevents (.cons hfinish .nil))

/-- The events of a document and those of the recoded document are the same, one by one. -/
theorem events_apply (hr : r.Exact) (hlines : r.KeepsLocations) (source : List Char) :
    List.Forall₂ r.SameEvent (events source) (events (r.apply source)) :=
  (scan_apply hr source).events hlines (Cursor.flatMap_raw_steps (.atStart source)).symm

end Recoding

end HtmlLint
