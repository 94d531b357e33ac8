import HtmlLint.Proofs.PairingAccount
import Mathlib.Data.Set.Card

/-!
# Depths are those of brackets

The open elements are known by their names only. To say which start tag an end tag closes, the stack
is kept with the start tags themselves (`openTags`); their names are the open elements.

* `Token.openTagsAfter_cases` — all that one token can do to the stack.
* `exists_openTags_around` — as long as a start tag is on the stack, what was open before it is
  right below it, untouched.
* `Walk.depth_of_mem_events` — the depth of an event is the smaller one of the heights of the stack
  before and after its token.

`depths_form_brackets` says that a start tag and the end tag that closes it have the same depth, and
all that stands between them is deeper.
-/

namespace HtmlLint

/-! ## The tags of the open elements -/

namespace Token

/-- The token opens an element: a start tag that does not close itself, of an element with
content. -/
def opensElement (t : Token) : Bool :=
  match t.kind with
  | .startTag name _ selfClosing => !selfClosing && !voidElements.contains (Text.lower name)
  | _ => false

/-- The tag that an end tag closes: of the tags of the open elements the innermost one of its
name. -/
def closes? (t : Token) (inside : List Token) : Option Token :=
  if t.isEndTag then inside.find? (·.pairName == t.pairName) else none

/-- The tags of the open elements, innermost first, after one more token. -/
def openTagsAfter (t : Token) (inside : List Token) : List Token :=
  if t.opensElement then t :: inside
  else if t.isEndTag then
    match inside.dropWhile (·.pairName != t.pairName) with
    | [] => inside
    | _ :: outer => outer
  else inside

theorem isEndTag_of_opensElement {t : Token} (h : t.opensElement = true) : t.isEndTag = false := by
  cases hkind : t.kind with
  | startTag => simp [isEndTag, hkind]
  | _ => simp [opensElement, hkind] at h

/-- A token opens an element, closes the innermost one of its name with all that is inside of it, or
leaves the stack as it is. -/
theorem openTagsAfter_cases (t : Token) (inside : List Token) :
    (t.opensElement = true ∧ t.openTagsAfter inside = t :: inside)
      ∨ (∃ skipped s outer, inside = skipped ++ s :: outer ∧ t.closes? inside = some s
        ∧ t.openTagsAfter inside = outer)
      ∨ (t.opensElement = false ∧ t.closes? inside = none ∧ t.openTagsAfter inside = inside) := by
  cases hopens : t.opensElement with
  | true => exact .inl ⟨rfl, by simp [openTagsAfter, hopens]⟩
  | false =>
    cases hend : t.isEndTag with
    | false =>
      exact .inr (.inr ⟨rfl, by simp [closes?, hend], by simp [openTagsAfter, hopens, hend]⟩)
    | true =>
      -- the search for the name and the cut at it stop at the same tag
      have hfind : t.closes? inside = (inside.dropWhile (·.pairName != t.pairName)).head? :=
        (if_pos hend).trans (List.find?_eq_head?_dropWhile_not _ inside)
      cases hdrop : inside.dropWhile (·.pairName != t.pairName) with
      | nil =>
        refine .inr (.inr ⟨rfl, by simp [hfind, hdrop], ?_⟩)
        simp [openTagsAfter, hopens, hend, hdrop]
      | cons s outer =>
        refine .inr (.inl ⟨inside.takeWhile (·.pairName != t.pairName), s, outer, ?_,
          by simp [hfind, hdrop], by simp [openTagsAfter, hopens, hend, hdrop]⟩)
        rw [← hdrop, List.takeWhile_append_dropWhile]

theorem isEndTag_of_closes? {t s : Token} {inside : List Token} (h : t.closes? inside = some s) :
    t.isEndTag = true := by
  by_contra hend
  simp [closes?, hend] at h

theorem mem_of_closes? {t s : Token} {inside : List Token} (h : t.closes? inside = some s) :
    s ∈ inside := by
  simp only [closes?, isEndTag_of_closes? h, if_true] at h
  exact List.mem_of_find?_eq_some h

/-- A token works above a tag on the stack, or it takes the tag away and all that is above. -/
theorem openTagsAfter_around (t : Token) (inner : List Token) (s : Token) (outer : List Token) :
    (∃ inner', t.openTagsAfter (inner ++ s :: outer) = inner' ++ s :: outer)
      ∨ t.openTagsAfter (inner ++ s :: outer) <:+ outer := by
  rcases t.openTagsAfter_cases (inner ++ s :: outer) with
    ⟨-, hafter⟩ | ⟨skipped, u, below, hinside, -, hafter⟩ | ⟨-, -, hafter⟩
  · exact .inl ⟨t :: inner, hafter⟩
  · rw [hafter]
    -- `u` is the tag that is closed, and stands above `s`, is `s`, or stands below it
    rcases List.append_eq_append_iff.1 hinside with ⟨d, -, hd⟩ | ⟨d, -, hd⟩
    · right
      cases d with
      | nil => exact (List.cons.inj hd).2 ▸ List.suffix_rfl
      | cons v d => exact ⟨d ++ [u], by simp [(List.cons.inj hd).2]⟩
    · cases d with
      | nil => exact .inr ((List.cons.inj hd).2 ▸ List.suffix_rfl)
      | cons v d => exact .inl ⟨d, (List.cons.inj hd).2⟩
  · exact .inl ⟨inner, hafter⟩

end Token

/-- The start tags of the elements that are open after some tokens, innermost first. -/
def openTags (tokens : List Token) : List Token :=
  tokens.foldl (fun inside t => t.openTagsAfter inside) []

theorem openTags_append (tokens : List Token) (t : Token) :
    openTags (tokens ++ [t]) = t.openTagsAfter (openTags tokens) :=
  List.foldl_append

/-- The tags on the stack are start tags that were read, the last one first. -/
theorem openTags_sublist (tokens : List Token) :
    (openTags tokens).Sublist (tokens.filter Token.opensElement).reverse := by
  induction tokens using List.reverseRecOn with
  | nil => exact .slnil
  | append_singleton tokens t ih =>
    rw [openTags_append]
    rcases t.openTagsAfter_cases (openTags tokens) with
      ⟨hopens, hafter⟩ | ⟨skipped, s, outer, hinside, -, hafter⟩ | ⟨hopens, -, hafter⟩
    · simpa [hafter, hopens] using ih
    · -- what is left after an end tag was on the stack before
      have houter : outer.Sublist (openTags tokens) := by
        rw [hinside]
        exact (List.sublist_cons_self s outer).trans (List.sublist_append_right skipped _)
      have hgrow : (tokens.filter Token.opensElement).reverse.Sublist
          ((tokens ++ [t]).filter Token.opensElement).reverse := by
        rw [List.reverse_sublist, List.filter_append]
        exact List.sublist_append_left _ _
      simpa only [hafter] using (houter.trans ih).trans hgrow
    · simpa [hafter, hopens] using ih

theorem mem_of_mem_openTags {tokens : List Token} {s : Token} (h : s ∈ openTags tokens) :
    s ∈ tokens ∧ s.opensElement = true := by
  simpa using (openTags_sublist tokens).subset h

theorem nodup_openTags {tokens : List Token} (h : tokens.Nodup) : (openTags tokens).Nodup := by
  have hread : (tokens.filter Token.opensElement).reverse.Nodup :=
    List.nodup_reverse.2 (h.filter _)
  exact hread.sublist (openTags_sublist tokens)

/-- A tag on the stack that was not just read was there before. -/
theorem mem_openTags_of_append {tokens later : List Token} {s : Token}
    (h : s ∈ openTags (tokens ++ later)) (hlater : s ∉ later) : s ∈ openTags tokens := by
  induction later using List.reverseRecOn with
  | nil => simpa using h
  | append_singleton later t ih =>
    have hne : s ≠ t := by
      intro heq
      exact hlater (by simp [heq])
    refine ih ?_ fun hmem => hlater (by simp [hmem])
    rw [← List.append_assoc, openTags_append] at h
    rcases t.openTagsAfter_cases (openTags (tokens ++ later)) with
      ⟨-, hafter⟩ | ⟨skipped, u, outer, hinside, -, hafter⟩ | ⟨-, -, hafter⟩
    · simpa [hafter, hne] using h
    · rw [hafter] at h
      simp [hinside, h]
    · simpa only [hafter] using h

/-- While a start tag is on the stack, what was open before it is right below it. -/
theorem exists_openTags_around {before between : List Token} {s : Token}
    (hnodup : (before ++ s :: between).Nodup) (hopen : s ∈ openTags (before ++ s :: between)) :
    ∃ inner, openTags (before ++ s :: between) = inner ++ s :: openTags before := by
  have hbefore : s ∉ openTags before := by
    intro hmem
    exact (List.nodup_append.1 hnodup).2.2 s (mem_of_mem_openTags hmem).1 s
      List.mem_cons_self rfl
  -- one token after the other is added to those between
  induction between using List.reverseRecOn with
  | nil =>
    have hpushed : s.openTagsAfter (openTags before) = s :: openTags before :=
      if_pos (mem_of_mem_openTags hopen).2
    exact ⟨[], (openTags_append before s).trans hpushed⟩
  | append_singleton between t ih =>
    have hsplit : before ++ s :: (between ++ [t]) = (before ++ s :: between) ++ [t] := by simp
    rw [hsplit] at hnodup hopen ⊢
    have hne : s ∉ [t] := by
      intro hmem
      exact (List.nodup_append.1 hnodup).2.2 s (by simp) s hmem rfl
    have hearlier := mem_openTags_of_append hopen hne
    rcases ih (List.nodup_append.1 hnodup).1 hearlier with ⟨inner, hinner⟩
    rw [openTags_append] at hopen ⊢
    rw [hinner] at hopen ⊢
    rcases t.openTagsAfter_around inner s (openTags before) with hkept | hcut
    · exact hkept
    · exact absurd (hcut.subset hopen) hbefore

/-- After an end tag the stack is the one before the start tag that it closes. -/
theorem openTags_closed {before between : List Token} {s e : Token}
    (hnodup : (before ++ s :: between).Nodup)
    (hcloses : e.closes? (openTags (before ++ s :: between)) = some s) :
    openTags (before ++ s :: between ++ [e]) = openTags before := by
  rcases exists_openTags_around hnodup (Token.mem_of_closes? hcloses) with ⟨inner, hinner⟩
  have honce := nodup_openTags hnodup
  rw [openTags_append]
  rcases e.openTagsAfter_cases (openTags (before ++ s :: between)) with
    ⟨hopens, -⟩ | ⟨skipped, u, outer, hinside, hclosed, hafter⟩ | ⟨-, hnone, -⟩
  · have hend := Token.isEndTag_of_closes? hcloses
    rw [Token.isEndTag_of_opensElement hopens] at hend
    cases hend
  · obtain rfl : u = s := Option.some.inj (hclosed.symm.trans hcloses)
    -- the tag stands in the stack once, and so has one stack below it
    rw [hinner] at honce
    have hparts := List.nodup_append.1 honce
    have habove : u ∉ inner := fun hmem => hparts.2.2 u hmem u List.mem_cons_self rfl
    have hbelow : u ∉ openTags before := (List.nodup_cons.1 hparts.2.1).1
    have hsame := (List.append_cons_inj_of_notMem habove hbelow).1 (hinner.symm.trans hinside)
    exact hafter.trans hsame.2.2.symm
  · rw [hcloses] at hnone
    cases hnone

/-! ## Names and heights -/

/-- The open elements after some tokens of a document. -/
def openElementsAfter (document : List Char) (tokens : List Token) : OpenElements :=
  ((Walk.atStart document).afterAll tokens).inside

theorem openElementsAfter_append (document : List Char) (tokens : List Token) (t : Token) :
    openElementsAfter document (tokens ++ [t])
      = ((Walk.atStart document).afterAll tokens).insideAfter t := by
  simp [openElementsAfter, Walk.afterAll, Walk.after]

/-- One token keeps the names of the tags in step with the open elements. -/
theorem Walk.names_openTagsAfter {here : Walk} {inside : List Token} (t : Token)
    (h : inside.map Token.pairName = here.inside) :
    (t.openTagsAfter inside).map Token.pairName = here.insideAfter t := by
  cases hkind : t.kind with
  | startTag name attributes selfClosing =>
    have hopens : t.opensElement = !(selfClosing || voidElements.contains (Text.lower name)) := by
      simp [Token.opensElement, hkind]
    have hend : t.isEndTag = false := by simp [Token.isEndTag, hkind]
    simp only [Token.openTagsAfter, insideAfter, OpenElements.enter, hkind, hopens, hend]
    cases selfClosing || voidElements.contains (Text.lower name) with
    | true => simpa using h
    | false => simpa [Token.pairName, hkind] using h
  | endTag name =>
    have hname : t.pairName = Text.lower name := by simp [Token.pairName, hkind]
    simp only [Token.openTagsAfter, Token.opensElement, Token.isEndTag, insideAfter, hkind, ← h,
      OpenElements.leave_map, hname]
    cases inside.dropWhile (·.pairName != Text.lower name) with
    | nil => rfl
    | cons tag outer => rfl
  | _ => simp [Token.openTagsAfter, Token.opensElement, Token.isEndTag, insideAfter, hkind, h]

/-- The names of the tags on the stack are the open elements. -/
theorem names_openTags (document : List Char) (tokens : List Token) :
    (openTags tokens).map Token.pairName = openElementsAfter document tokens := by
  induction tokens using List.reverseRecOn with
  | nil => rfl
  | append_singleton tokens t ih =>
    rw [openTags_append, openElementsAfter_append]
    exact Walk.names_openTagsAfter t ih

theorem length_openElementsAfter (document : List Char) (tokens : List Token) :
    (openElementsAfter document tokens).length = (openTags tokens).length := by
  rw [← names_openTags, List.length_map]

theorem OpenElements.length_leave_le (inner : OpenElements) (name : List Char) :
    (inner.leave name).length ≤ inner.length := by
  have hdrop := (List.dropWhile_sublist (· != name) (l := inner)).length_le
  unfold OpenElements.leave
  cases hfound : inner.dropWhile (· != name) with
  | nil => exact le_rfl
  | cons n outer =>
    rw [hfound, List.length_cons] at hdrop
    exact Nat.le_of_succ_le hdrop

/-- The depth of an event is the smaller one of two numbers of open elements: before its token and
after it. -/
theorem Walk.depth_of_mem_events {here : Walk} {t : Token} {f : Event} (h : f ∈ here.events t) :
    f.depth = min here.inside.length (here.insideAfter t).length := by
  cases hkind : t.kind with
  | startTag name attributes selfClosing =>
    have hdepth : f.depth = here.inside.length := by
      simp only [events, hkind, List.mem_cons, List.mem_map] at h
      rcases h with rfl | ⟨item, -, rfl⟩ <;> rfl
    have hgrows : here.inside.length ≤ (here.insideAfter t).length := by
      simp only [insideAfter, hkind, OpenElements.enter]
      split
      · exact le_rfl
      · exact Nat.le_succ _
    rw [hdepth, min_eq_left hgrows]
  | endTag name =>
    have hdepth : f.depth = (here.inside.leave (Text.lower name)).length := by
      simp only [events, hkind, List.mem_singleton] at h
      rw [h]
    simp only [insideAfter, hkind]
    rw [hdepth, min_eq_right (OpenElements.length_leave_le here.inside _)]
  | _ =>
    simp only [events, hkind, List.mem_singleton] at h
    simp only [insideAfter, hkind, min_self, h, events.event]

/-- An event of some tokens is one of a token, read where the tokens before it lead to. -/
theorem Walk.exists_split_of_mem_allEvents {here : Walk} {tokens : List Token} {f : Event}
    (h : f ∈ here.allEvents tokens) :
    ∃ before t behind, tokens = before ++ t :: behind
      ∧ f ∈ ((here.afterAll before).reach t.span.start).events t := by
  induction tokens generalizing here with
  | nil => simp at h
  | cons t tokens ih =>
    rw [allEvents_cons] at h
    rcases List.mem_append.1 h with hown | hlater
    · exact ⟨[], t, tokens, rfl, hown⟩
    · rcases ih hlater with ⟨before, u, behind, rfl, hu⟩
      exact ⟨t :: before, u, behind, rfl, hu⟩

/-! ## Events of a token and after it -/

/-- The events of a token of a document, after the tokens before it. -/
def tokenEvents (document : List Char) (before : List Token) (t : Token) : List Event :=
  (((Walk.atStart document).afterAll before).reach t.span.start).events t

/-- The events of the tokens `behind` and of the end of a document, after the tokens `before`. -/
def eventsBehind (document : List Char) (before behind : List Token) : List Event :=
  ((Walk.atStart document).afterAll before).allEvents behind
    ++ [finishEvent document ((Walk.atStart document).afterAll (before ++ behind))]

theorem events_of_split {document : List Char} {before behind : List Token}
    (h : scan document = before ++ behind) :
    events document = eventsThrough document before ++ eventsBehind document before behind := by
  rw [events_eq_eventsThrough, h, eventsThrough_append, List.append_assoc]
  rfl

theorem eventsBehind_append (document : List Char) (before between behind : List Token) :
    eventsBehind document before (between ++ behind)
      = ((Walk.atStart document).afterAll before).allEvents between
        ++ eventsBehind document (before ++ between) behind := by
  simp [eventsBehind, Walk.allEvents_append, Walk.afterAll, List.foldl_append]

theorem eventsBehind_cons (document : List Char) (before : List Token) (t : Token)
    (behind : List Token) :
    eventsBehind document before (t :: behind)
      = tokenEvents document before t ++ eventsBehind document (before ++ [t]) behind := by
  simp [eventsBehind, tokenEvents, Walk.afterAll, List.foldl_append]

/-- The depth of an event is the smaller one of the heights of the stack before and after. -/
theorem depth_of_mem_tokenEvents {document : List Char} {before : List Token} {t : Token}
    {f : Event} (h : f ∈ tokenEvents document before t) :
    f.depth = min (openTags before).length (openTags (before ++ [t])).length := by
  rw [← length_openElementsAfter document before,
    ← length_openElementsAfter document (before ++ [t]), openElementsAfter_append]
  have hdepth := Walk.depth_of_mem_events h
  exact hdepth

/-- A tag that opens an element has one event of its own and one for each attribute. -/
theorem tokenEvents_of_opensElement {t : Token} (h : t.opensElement = true) (document : List Char)
    (before : List Token) :
    (tokenEvents document before t).map (fun f => (f.kind, f.span))
      = (.tagStart, t.span) :: t.kind.attributes.map fun item => (.attr, item.span) := by
  cases hkind : t.kind with
  | startTag name attributes selfClosing =>
    simp [tokenEvents, Walk.events, hkind, Walk.events.event, Walk.attributeEvent, Event.kind,
      Event.Detail.kind, Token.Kind.attributes, Function.comp_def]
  | _ => simp [Token.opensElement, hkind] at h

theorem tokenEvents_of_isEndTag {t : Token} (h : t.isEndTag = true) (document : List Char)
    (before : List Token) :
    ∃ closing, tokenEvents document before t = [closing]
      ∧ closing.kind = .tagEnd ∧ closing.span = t.span := by
  cases hkind : t.kind with
  | endTag name =>
    simp only [tokenEvents, Walk.events, hkind]
    exact ⟨_, rfl, rfl, rfl⟩
  | _ => simp [Token.isEndTag, hkind] at h

/-- The events of a start tag are as deep as the stack is high before the tag. -/
theorem depth_of_opensElement {document : List Char} {before : List Token} {s : Token}
    (h : s.opensElement = true) {f : Event} (hf : f ∈ tokenEvents document before s) :
    f.depth = (openTags before).length := by
  have hpushed : openTags (before ++ [s]) = s :: openTags before :=
    (openTags_append before s).trans (if_pos h)
  rw [depth_of_mem_tokenEvents hf, hpushed, List.length_cons]
  exact min_eq_left (Nat.le_succ _)

/-- While a start tag is on the stack, the stack is higher than before the tag. -/
theorem length_openTags_lt {before between behind : List Token} {s : Token}
    (hnodup : (before ++ s :: (between ++ behind)).Nodup)
    (hopen : s ∈ openTags (before ++ s :: (between ++ behind))) :
    (openTags before).length < (openTags (before ++ s :: between)).length := by
  have hsplit : before ++ s :: (between ++ behind) = (before ++ s :: between) ++ behind := by simp
  rw [hsplit] at hnodup hopen
  have hparts := List.nodup_append.1 hnodup
  have hlater : s ∉ behind := fun hmem => hparts.2.2 s (by simp) s hmem rfl
  rcases exists_openTags_around hparts.1 (mem_openTags_of_append hopen hlater) with ⟨inner, hinner⟩
  rw [hinner, List.length_append, List.length_cons]
  omega

/-- The event of an end tag is as deep as the stack was high before the start tag that it closes. -/
theorem depth_of_closes? {document : List Char} {before between : List Token} {s e : Token}
    (hnodup : (before ++ s :: between).Nodup)
    (hcloses : e.closes? (openTags (before ++ s :: between)) = some s) {f : Event}
    (hf : f ∈ tokenEvents document (before ++ s :: between) e) :
    f.depth = (openTags before).length := by
  rcases exists_openTags_around hnodup (Token.mem_of_closes? hcloses) with ⟨inner, hinner⟩
  have hheight : (openTags before).length ≤ (openTags (before ++ s :: between)).length := by
    simp only [hinner, List.length_append, List.length_cons]
    omega
  rw [depth_of_mem_tokenEvents hf, openTags_closed hnodup hcloses]
  exact min_eq_right hheight

/-- While a start tag is on the stack, all events are deeper than what was open before the tag. -/
theorem depth_between {document : List Char} {before between : List Token} {s : Token}
    (hnodup : (before ++ s :: between).Nodup) (hopen : s ∈ openTags (before ++ s :: between))
    {f : Event} (hf : f ∈ ((Walk.atStart document).afterAll (before ++ [s])).allEvents between) :
    (openTags before).length < f.depth := by
  rcases Walk.exists_split_of_mem_allEvents hf with ⟨inner, t, behind, rfl, hmem⟩
  have hown : f ∈ tokenEvents document (before ++ s :: inner) t := by
    simpa [tokenEvents, Walk.afterAll, List.foldl_append] using hmem
  have hheight : (openTags before).length < (openTags (before ++ s :: inner)).length :=
    length_openTags_lt hnodup hopen
  have hheight' : (openTags before).length < (openTags (before ++ s :: inner ++ [t])).length := by
    -- the tag is still there after the token of the event
    have hsplit : inner ++ t :: behind = (inner ++ [t]) ++ behind := by simp
    rw [hsplit] at hnodup hopen
    simpa using length_openTags_lt hnodup hopen
  rw [depth_of_mem_tokenEvents hown]
  exact lt_min hheight hheight'

/-- Events and what is open after them depend on what is open before them, as far as depths go. -/
theorem Walk.map_depth_events {here there : Walk} (h : here.inside = there.inside) (t : Token) :
    (here.events t).map (·.depth) = (there.events t).map (·.depth) := by
  cases hkind : t.kind <;>
    simp [events, hkind, events.event, attributeEvent, h, Function.comp_def]

theorem Walk.map_depth_allEvents {here there : Walk} (h : here.inside = there.inside)
    (tokens : List Token) :
    (here.allEvents tokens).map (·.depth) = (there.allEvents tokens).map (·.depth)
      ∧ (here.afterAll tokens).inside = (there.afterAll tokens).inside := by
  induction tokens generalizing here there with
  | nil => exact ⟨rfl, h⟩
  | cons t tokens ih =>
    have hnext : (here.after t).inside = (there.after t).inside := by
      simp [after, insideAfter, h]
    rcases ih hnext with ⟨hdepths, hinside⟩
    refine ⟨?_, hinside⟩
    have hreach : (here.reach t.span.start).inside = (there.reach t.span.start).inside := h
    have hown := map_depth_events hreach t
    simp only [allEvents_cons, List.map_append, hown, hdepths]

/-- A token that opens and closes nothing changes no later depth: they are what they are without
it. -/
theorem map_depth_eventsBehind {document : List Char} {before : List Token} {t : Token}
    (h : openElementsAfter document (before ++ [t]) = openElementsAfter document before)
    (behind : List Token) :
    (eventsBehind document (before ++ [t]) behind).map (·.depth)
      = (eventsBehind document before behind).map (·.depth) := by
  rcases Walk.map_depth_allEvents h behind with ⟨hdepths, hinside⟩
  have hsame : openElementsAfter document (before ++ [t] ++ behind)
      = openElementsAfter document (before ++ behind) := by
    simpa [openElementsAfter, Walk.afterAll, List.foldl_append] using hinside
  simpa [eventsBehind, hdepths, finishEvent, openElementsAfter] using congrArg List.length hsame

/-- A start tag that closes itself or is of an element without content opens nothing. -/
theorem openElementsAfter_of_passed {t : Token} {name : List Char} {attributes : List Attribute}
    {selfClosing : Bool} (hkind : t.kind = .startTag name attributes selfClosing)
    (hpassed : selfClosing = true ∨ Text.lower name ∈ voidElements) (document : List Char)
    (before : List Token) :
    openElementsAfter document (before ++ [t]) = openElementsAfter document before := by
  have hfound : (selfClosing || voidElements.contains (Text.lower name)) = true := by
    simpa using hpassed
  rw [openElementsAfter_append]
  simp only [Walk.insideAfter, hkind, OpenElements.enter, hfound, if_true]
  rfl

/-- An end tag without an open element of its name closes nothing. -/
theorem openElementsAfter_of_stray {t : Token} (hend : t.isEndTag = true) {document : List Char}
    {before : List Token} (hstray : t.pairName ∉ openElementsAfter document before) :
    openElementsAfter document (before ++ [t]) = openElementsAfter document before := by
  have hnone : (openElementsAfter document before).dropWhile (· != t.pairName) = [] := by
    simpa [List.dropWhile_eq_nil_iff] using fun n hn => ne_of_mem_of_not_mem hn hstray
  rw [openElementsAfter_append]
  cases hkind : t.kind with
  | endTag name =>
    have hname : t.pairName = Text.lower name := by simp [Token.pairName, hkind]
    rw [hname] at hnone
    simp only [Walk.insideAfter, hkind, OpenElements.leave]
    unfold openElementsAfter at hnone ⊢
    rw [hnone]
  | _ => simp [Token.isEndTag, hkind] at hend

/-- None of the tokens takes the tag from the stack. -/
def Token.NeverClosedIn (s : Token) (tokens : List Token) : Prop :=
  ∀ before e behind, tokens = before ++ e :: behind →
    s ∈ openTags before → s ∈ openTags (before ++ [e])

/-- The tags on the stack are those that were put there and never taken away. -/
theorem mem_openTags_iff {tokens : List Token} (hnodup : tokens.Nodup) {s : Token} :
    s ∈ openTags tokens
      ↔ s ∈ tokens ∧ s.opensElement = true ∧ s.NeverClosedIn tokens := by
  constructor
  · intro hopen
    refine ⟨(mem_of_mem_openTags hopen).1, (mem_of_mem_openTags hopen).2, ?_⟩
    intro before e behind hsplit hmem
    subst hsplit
    -- it was read among the tokens `before` and so is not read again
    have hlater : s ∉ behind := by
      intro hagain
      exact (List.nodup_append.1 hnodup).2.2 s (mem_of_mem_openTags hmem).1 s
        (List.mem_cons_of_mem e hagain) rfl
    rw [← List.singleton_append, ← List.append_assoc] at hopen
    exact mem_openTags_of_append hopen hlater
  · intro ⟨hmem, hopens, hkept⟩
    rcases List.append_of_mem hmem with ⟨before, behind, rfl⟩
    have hpushed : s ∈ openTags (before ++ [s]) := by
      simp [openTags_append, Token.openTagsAfter, hopens]
    -- from its own token on, token after token, it stays
    have hstays : ∀ later rest, behind = later ++ rest → s ∈ openTags (before ++ s :: later) := by
      intro later
      induction later using List.reverseRecOn with
      | nil => exact fun _ _ => hpushed
      | append_singleton later t ih =>
        intro rest hrest
        have hbefore := ih (t :: rest) (by simp [hrest])
        have hnext := hkept (before ++ s :: later) t rest (by simp [hrest]) hbefore
        simpa using hnext
    exact hstays behind [] (by simp)

/-- The number of tags that are never taken away is the height of the stack at the end. -/
theorem ncard_openTags {tokens : List Token} (hnodup : tokens.Nodup) :
    {s | s ∈ tokens ∧ s.opensElement = true ∧ s.NeverClosedIn tokens}.ncard
      = (openTags tokens).length := by
  have hset : {s | s ∈ tokens ∧ s.opensElement = true ∧ s.NeverClosedIn tokens}
      = ↑(openTags tokens).toFinset := by
    ext s
    simpa using (mem_openTags_iff hnodup).symm
  rw [hset, Set.ncard_coe_finset, List.toFinset_card_of_nodup (nodup_openTags hnodup)]

/-! ## The depths of a document -/

/-- Depths are those of brackets. The open elements are the names of the tags on the stack. An end
tag that closes a start tag leaves the stack as it was before that tag, has the depth of all events
of that tag, and whatever comes between those and its own event is deeper. An end tag without an
open element of its name leaves the open elements alone and is as deep as they are many. After a
start tag that closes itself or is of an element without content, all depths are what they are
without the tag. The depth at the end of the document is the number of tags that opened an element
and were never taken from the stack. -/
theorem depths_form_brackets (document : List Char) :
    (∀ tokens : List Token,
      (openTags tokens).map Token.pairName = openElementsAfter document tokens)
    ∧ (∀ (before : List Token) (s : Token) (between : List Token) (e : Token)
      (behind : List Token), scan document = before ++ s :: (between ++ e :: behind) →
      e.closes? (openTags (before ++ s :: between)) = some s →
      openTags (before ++ s :: between ++ [e]) = openTags before
      ∧ ∃ (opening inner : List Event) (closing : Event) (later : List Event),
        events document = eventsThrough document before
            ++ (opening ++ (inner ++ closing :: later))
          ∧ opening.map (fun f => (f.kind, f.span))
            = (EventKind.tagStart, s.span)
              :: s.kind.attributes.map (fun item => (EventKind.attr, item.span))
          ∧ closing.kind = .tagEnd ∧ closing.span = e.span
          ∧ (∀ f ∈ opening, f.depth = closing.depth)
          ∧ ∀ f ∈ inner, closing.depth < f.depth)
    ∧ (∀ (before : List Token) (e : Token) (behind : List Token),
      scan document = before ++ e :: behind → e.isEndTag = true →
      e.pairName ∉ openElementsAfter document before →
      openElementsAfter document (before ++ [e]) = openElementsAfter document before
      ∧ ∃ (closing : Event) (later : List Event),
        events document = eventsThrough document before ++ closing :: later
        ∧ closing.kind = .tagEnd ∧ closing.span = e.span
        ∧ closing.depth = (openElementsAfter document before).length)
    ∧ (∀ (before : List Token) (t : Token) (behind : List Token) (name : List Char)
      (attributes : List Attribute) (selfClosing : Bool),
      scan document = before ++ t :: behind → t.kind = .startTag name attributes selfClosing →
      selfClosing = true ∨ Text.lower name ∈ voidElements →
      events document
          = eventsThrough document (before ++ [t]) ++ eventsBehind document (before ++ [t]) behind
        ∧ (eventsBehind document (before ++ [t]) behind).map (·.depth)
          = (eventsBehind document before behind).map (·.depth))
    ∧ ∃ finish : Event, events document = eventsThrough document (scan document) ++ [finish]
      ∧ finish.kind = .finish
      ∧ finish.depth = {s | s ∈ scan document ∧ s.opensElement = true
        ∧ s.NeverClosedIn (scan document)}.ncard := by
  refine ⟨names_openTags document, ?_, ?_, ?_, ?_⟩
  · intro before s between e behind hscan hcloses
    have hnodup : (before ++ s :: between).Nodup := by
      have hall := scan_nodup document
      rw [hscan, ← List.cons_append, ← List.append_assoc] at hall
      exact (List.nodup_append.1 hall).1
    have hopen := Token.mem_of_closes? hcloses
    have hopens := (mem_of_mem_openTags hopen).2
    rcases tokenEvents_of_isEndTag (Token.isEndTag_of_closes? hcloses) document
      (before ++ s :: between) with ⟨closing, hclosing, hkind, hspan⟩
    have hown : closing ∈ tokenEvents document (before ++ s :: between) e := by simp [hclosing]
    have hdepth : closing.depth = (openTags before).length := depth_of_closes? hnodup hcloses hown
    refine ⟨openTags_closed hnodup hcloses, tokenEvents document before s,
      ((Walk.atStart document).afterAll (before ++ [s])).allEvents between, closing,
      eventsBehind document (before ++ s :: between ++ [e]) behind, ?_,
      tokenEvents_of_opensElement hopens document before, hkind, hspan, ?_, ?_⟩
    · rw [events_of_split hscan, eventsBehind_cons, eventsBehind_append, eventsBehind_cons]
      simp [hclosing]
    · intro f hf
      exact (depth_of_opensElement hopens hf).trans hdepth.symm
    · intro f hf
      rw [hdepth]
      exact depth_between hnodup hopen hf
  · intro before e behind hscan hend hstray
    have hsame := openElementsAfter_of_stray hend hstray
    rcases tokenEvents_of_isEndTag hend document before with ⟨closing, hclosing, hkind, hspan⟩
    refine ⟨hsame, closing, eventsBehind document (before ++ [e]) behind, ?_, hkind, hspan, ?_⟩
    · rw [events_of_split hscan, eventsBehind_cons, hclosing]
      rfl
    · have hown : closing ∈ tokenEvents document before e := by simp [hclosing]
      rw [depth_of_mem_tokenEvents hown, ← length_openElementsAfter document before,
        ← length_openElementsAfter document (before ++ [e]), hsame]
      exact min_self _
  · intro before t behind name attributes selfClosing hscan hkind hpassed
    refine ⟨events_of_split (by simp [hscan]), ?_⟩
    exact map_depth_eventsBehind (openElementsAfter_of_passed hkind hpassed document before) behind
  · refine ⟨_, events_eq_eventsThrough document, rfl, ?_⟩
    rw [ncard_openTags (scan_nodup document), ← length_openElementsAfter document (scan document)]
    rfl

/-- In `<b><p a=1><i><u></P></i><br>x` the first end tag closes the `p` with the two elements inside
of it, the second one closes nothing, and the `b` stays open. -/
theorem depths_over_skippedTags :
    let document := "<b><p a=1><i><u></P></i><br>x".toList
    (events document).map (fun f => (f.kind, f.depth))
        = [(.start, 0), (.tagStart, 0), (.tagStart, 1), (.attr, 1), (.tagStart, 2), (.tagStart, 3),
          (.tagEnd, 1), (.tagEnd, 1), (.tagStart, 1), (.text, 1), (.finish, 1)]
      ∧ (∃ (lead opening inner : List Event) (closing : Event) (later : List Event),
        events document = lead ++ (opening ++ (inner ++ closing :: later))
          ∧ opening.map (fun f => (f.kind, f.span)) = [(.tagStart, ⟨3, 10⟩), (.attr, ⟨6, 9⟩)]
          ∧ closing.kind = .tagEnd ∧ closing.span = ⟨16, 20⟩
          ∧ (∀ f ∈ opening, f.depth = closing.depth)
          ∧ ∀ f ∈ inner, closing.depth < f.depth)
      ∧ (∃ (lead : List Event) (closing : Event) (later : List Event),
        events document = lead ++ closing :: later
        ∧ closing.kind = .tagEnd ∧ closing.span = ⟨20, 24⟩ ∧ closing.depth = 1)
      ∧ {s | s ∈ scan document ∧ s.opensElement = true
        ∧ s.NeverClosedIn (scan document)}.ncard = 1 := by
  intro document
  have hevents : (events document).map (fun f => (f.kind, f.depth))
      = [(.start, 0), (.tagStart, 0), (.tagStart, 1), (.attr, 1), (.tagStart, 2), (.tagStart, 3),
        (.tagEnd, 1), (.tagEnd, 1), (.tagStart, 1), (.text, 1), (.finish, 1)] := by decide +kernel
  let start : Token := ⟨.startTag ['p'] [⟨['a'], ['1'], .unquoted, "a=1".toList, ⟨6, 9⟩⟩] false,
    "<p a=1>".toList, ⟨3, 10⟩⟩
  let close : Token := ⟨.endTag ['P'], "</P>".toList, ⟨16, 20⟩⟩
  let stray : Token := ⟨.endTag ['i'], "</i>".toList, ⟨20, 24⟩⟩
  have hscan : scan document = (scan document).take 1
      ++ start :: (((scan document).drop 2).take 2 ++ close :: (scan document).drop 5) := by
    decide +kernel
  have hcloses : close.closes? (openTags ((scan document).take 1
      ++ start :: ((scan document).drop 2).take 2)) = some start := by
    decide +kernel
  have hstray : scan document = (scan document).take 5 ++ stray :: (scan document).drop 6 := by
    decide +kernel
  have hopen : openElementsAfter document ((scan document).take 5) = [['b']] := by decide +kernel
  rcases depths_form_brackets document with ⟨-, hbracket, hunmatched, -, finish, hall, -, hcount⟩
  rcases hbracket _ _ _ _ _ hscan hcloses with ⟨-, opening, inner, closing, later, hbracket⟩
  rcases (hunmatched _ _ _ hstray rfl (by rw [hopen]; decide)).2 with
    ⟨closing', later', hsplit, hkind', hspan', hdepth'⟩
  refine ⟨hevents, ⟨_, opening, inner, closing, later, hbracket⟩,
    ⟨_, closing', later', hsplit, hkind', hspan', ?_⟩, ?_⟩
  · rw [hdepth', hopen]
    rfl
  · -- the last event has the depth 1
    have hlast := congrArg List.getLast? hevents
    rw [hall] at hlast
    rw [← hcount]
    simpa using congrArg (Option.map Prod.snd) hlast

end HtmlLint
