import HtmlLint.Proofs.Rendering
import HtmlLint.Proofs.RuleRuns

/-!
# The pairing rule accepts the balanced documents

The tags that the rule counts form a word of opening and closing brackets, one kind for each name.
The rule finds nothing exactly if that word is balanced.

* `Balanced` — the grammar of the words, in which every closing tag ends what it closes.
* `Closes` — the words that close a stack of open tags: what the rule has to see from a state on.

`Closes` has one equation for every way in which a word can start, and the rule makes the same three
distinctions. So the rule never needs to be compared with the grammar itself.
-/

namespace HtmlLint

/-! ## Balanced words -/

/-- A tag that takes part in pairing. -/
inductive PairTag where
  | opens (name : List Char)
  | closes (name : List Char)
  deriving DecidableEq, Repr

open PairTag

/-- The words in which all tags are paired. -/
inductive Balanced : List PairTag → Prop where
  | empty : Balanced []
  | pair {before inside : List PairTag} (name : List Char) :
      Balanced before → Balanced inside →
        Balanced (before ++ opens name :: inside ++ [closes name])

namespace Balanced

variable {a b inside rest word : List PairTag} {n : List Char}

theorem append (ha : Balanced a) (hb : Balanced b) : Balanced (a ++ b) := by
  induction hb with
  | empty => simpa using ha
  | pair name _ hinside ih _ =>
    have hwhole := Balanced.pair name ih hinside
    simpa using hwhole

/-- A pair may also stand in front. -/
theorem pair_append (n : List Char) (hinside : Balanced inside) (hrest : Balanced rest) :
    Balanced (opens n :: (inside ++ closes n :: rest)) := by
  have hpair : Balanced ([] ++ opens n :: inside ++ [closes n]) := .pair n .empty hinside
  have hwhole := hpair.append hrest
  simpa using hwhole

/-- The grammar splits off the last pair; this splits off the first one. -/
theorem eq_nil_or_pair (h : Balanced word) :
    word = [] ∨ ∃ n inside rest, word = opens n :: (inside ++ closes n :: rest)
      ∧ Balanced inside ∧ Balanced rest := by
  induction h with
  | empty => exact .inl rfl
  | @pair before inside name _ hinside ihBefore _ =>
    right
    rcases ihBefore with rfl | ⟨n, first, rest, rfl, hfirst, hrest⟩
    · exact ⟨name, inside, [], by simp, hinside, .empty⟩
    · -- the first pair is the one of the word before, and the last one goes behind it
      exact ⟨n, first, rest ++ opens name :: inside ++ [closes name], by simp, hfirst,
        .pair name hrest hinside⟩

theorem not_closes_cons : ¬ Balanced (closes n :: rest) := by
  intro h
  rcases h.eq_nil_or_pair with h | ⟨_, _, _, h, -, -⟩
  · cases h
  · cases h

end Balanced

/-! ## Words that close open tags -/

/-- The word closes the open tags, innermost first, and is balanced in between. -/
def Closes : List (List Char) → List PairTag → Prop
  | [], word => Balanced word
  | n :: outer, word =>
    ∃ inside rest, word = inside ++ closes n :: rest ∧ Balanced inside ∧ Closes outer rest

theorem closes_end (stack : List (List Char)) : Closes stack [] ↔ stack = [] := by
  cases stack with
  | nil => exact ⟨fun _ => rfl, fun _ => .empty⟩
  | cons n outer =>
    refine ⟨?_, fun h => by cases h⟩
    rintro ⟨inside, rest, hword, -, -⟩
    simp at hword

/-- An opening tag goes on the stack. -/
theorem closes_opens (stack : List (List Char)) (n : List Char) (word : List PairTag) :
    Closes stack (opens n :: word) ↔ Closes (n :: stack) word := by
  cases stack with
  | nil =>
    constructor
    · intro h
      rcases Balanced.eq_nil_or_pair h with h | ⟨m, inside, rest, hword, hinside, hrest⟩
      · cases h
      · cases hword
        exact ⟨inside, rest, rfl, hinside, hrest⟩
    · rintro ⟨inside, rest, rfl, hinside, hrest⟩
      exact Balanced.pair_append n hinside hrest
  | cons m outer =>
    constructor
    · rintro ⟨inside, rest, hword, hinside, hrest⟩
      -- the new tag is closed in what stands before the end of `m`
      rcases hinside.eq_nil_or_pair with rfl | ⟨k, first, behind, rfl, hfirst, hbehind⟩
      · cases hword
      · cases hword
        refine ⟨first, behind ++ closes m :: rest, by simp, hfirst, ?_⟩
        exact ⟨behind, rest, rfl, hbehind, hrest⟩
    · rintro ⟨first, _, rfl, hfirst, behind, rest, rfl, hbehind, hrest⟩
      exact ⟨opens n :: (first ++ closes n :: behind), rest, by simp,
        hfirst.pair_append n hbehind, hrest⟩

/-- A closing tag takes the top of the stack, and it has to be its own. -/
theorem closes_closes (stack : List (List Char)) (n : List Char) (word : List PairTag) :
    Closes stack (closes n :: word) ↔ ∃ outer, stack = n :: outer ∧ Closes outer word := by
  cases stack with
  | nil =>
    constructor
    · intro h
      exact absurd h Balanced.not_closes_cons
    · rintro ⟨outer, h, -⟩
      cases h
  | cons m outer =>
    constructor
    · rintro ⟨inside, rest, hword, hinside, hrest⟩
      rcases hinside.eq_nil_or_pair with rfl | ⟨k, first, behind, rfl, -, -⟩
      · cases hword
        exact ⟨outer, rfl, hrest⟩
      · cases hword
    · rintro ⟨outer, h, hword⟩
      cases h
      exact ⟨[], word, rfl, .empty, hword⟩

/-! ## The rule -/

/-- The tag that a token contributes to the word of its document. -/
def Token.pairTag? (t : Token) : Option PairTag :=
  match t.kind with
  | .startTag name _ selfClosing =>
    if selfClosing || Rule.unpairedElements.contains (Text.lower name) then none
    else some (opens (Text.lower name))
  | .endTag name => some (closes (Text.lower name))
  | _ => none

namespace Rule

/-- What the pairing rule does with an event. -/
def pairing (e : Event) (waiting : List OpenTag) : List OpenTag × List Finding :=
  match e.kind with
  | .tagStart => openTag e waiting
  | .tagEnd => closeTag e waiting
  | .finish => closeDocument e waiting
  | _ => (waiting, [])

theorem hear_tagPair (e : Event) (waiting : List OpenTag) :
    Listener.reactAll e (tagPair.heard e) waiting = pairing e waiting := by
  cases hdetail : e.detail <;>
    simp [heard, Event.targets, tagPair, Target.normal, Listener.reactAll, pairing, Event.kind,
      Event.Detail.kind, hdetail]

/-- The waiting tags after some events, and what the pairing rule has found in them. -/
def pairAll (waiting : List OpenTag) (list : List Event) : List OpenTag × List Finding :=
  tagPair.hearAll waiting list

theorem pairAll_nil (waiting : List OpenTag) : pairAll waiting [] = (waiting, []) := rfl

theorem pairAll_cons (e : Event) (list : List Event) (waiting : List OpenTag) :
    pairAll waiting (e :: list)
      = ((pairAll (pairing e waiting).1 list).1,
          (pairing e waiting).2 ++ (pairAll (pairing e waiting).1 list).2) := by
  rw [← hear_tagPair]
  rfl

theorem pairAll_append (a b : List Event) (waiting : List OpenTag) :
    pairAll waiting (a ++ b)
      = ((pairAll (pairAll waiting a).1 b).1,
          (pairAll waiting a).2 ++ (pairAll (pairAll waiting a).1 b).2) :=
  tagPair.hearAll_append waiting a b

/-- Attributes do not take part in pairing. -/
theorem pairAll_attributes {list : List Event} (h : ∀ e ∈ list, e.kind = .attr)
    (waiting : List OpenTag) : pairAll waiting list = (waiting, []) := by
  induction list with
  | nil => rfl
  | cons e list ih =>
    have hfirst : pairing e waiting = (waiting, []) := by
      simp [pairing, h e List.mem_cons_self]
    have hothers := ih fun other hother => h other (List.mem_cons_of_mem e hother)
    simp [pairAll_cons, hfirst, hothers]

theorem missing_eq_nil_iff {tags : List OpenTag} {location : Location} {raw : List Char} :
    missing tags location raw = [] ↔ tags = [] := by
  cases tags <;> simp [missing, missingMessage?]

/-- An end tag of the innermost waiting tag takes that tag and finds nothing. -/
theorem closeTag_innermost {e : Event} {tag : OpenTag} (h : e.tagName? = some tag.name)
    (outer : List OpenTag) : closeTag e (tag :: outer) = (outer, []) := by
  simp [closeTag, h, missing, missingMessage?]

/-- An end tag that finds nothing is the one of the innermost waiting tag. -/
theorem innermost_of_closeTag {e : Event} {n : List Char} (hname : e.tagName? = some n)
    {waiting : List OpenTag} (h : (closeTag e waiting).2 = []) :
    ∃ tag outer, waiting = tag :: outer ∧ tag.name = n := by
  cases waiting with
  | nil => simp [closeTag, hname] at h
  | cons tag outer =>
    refine ⟨tag, outer, rfl, ?_⟩
    by_contra hother
    -- the innermost tag is passed over, so it is complained about or nothing is closed
    cases hfound : outer.dropWhile (·.name != n) with
    | nil => simp [closeTag, hname, hother, hfound] at h
    | cons found rest => simp [closeTag, hname, hother, hfound, missing_eq_nil_iff] at h

/-- What a token does to the waiting tags, by the tag it counts as. -/
theorem pairAll_events (here : Walk) (t : Token) (waiting : List OpenTag) :
    pairAll waiting (here.events t) =
      match t.pairTag? with
      | none => (waiting, [])
      | some (opens n) => (⟨n, t.raw, here.location.line⟩ :: waiting, [])
      | some (closes n) =>
        closeTag ⟨.tagEnd n, t.raw, t.span, here.location, (here.inside.leave n).length⟩
          waiting := by
  cases hkind : t.kind with
  | startTag name attributes selfClosing =>
    have hattributes : ∀ e ∈ attributes.map (here.attributeEvent t (Text.lower name)),
        e.kind = .attr := by
      intro e he
      rcases List.mem_map.1 he with ⟨item, -, rfl⟩
      rfl
    have hopen : pairAll waiting (here.events t)
        = openTag (Walk.events.event here t (.tagStart (Text.lower name) attributes selfClosing))
            waiting := by
      simp only [Walk.events, hkind, pairAll_cons, pairAll_attributes hattributes, List.append_nil]
      rfl
    rw [hopen]
    by_cases hunpaired : selfClosing = true ∨ Text.lower name ∈ unpairedElements
    · simp [Token.pairTag?, hkind, hunpaired, openTag, OpenTag.ofEvent?, Walk.events.event]
    · simp [Token.pairTag?, hkind, hunpaired, openTag, OpenTag.ofEvent?, Walk.events.event]
  | _ =>
    simp only [Token.pairTag?, hkind, Walk.events, pairAll_cons, pairAll_nil, List.append_nil]
    rfl

/-- The last event complains about the tags that are still waiting. -/
theorem pairAll_finish (document : List Char) (here : Walk) (waiting : List OpenTag) :
    pairAll waiting [finishEvent document here]
      = closeDocument (finishEvent document here) waiting := by
  simp only [pairAll_cons, pairAll_nil, List.append_nil]
  rfl

/-- The rule finds nothing in the tokens and is left with no waiting tag exactly if the tokens close
the waiting tags. -/
theorem pairAll_allEvents_iff (tokens : List Token) (here : Walk) (waiting : List OpenTag) :
    pairAll waiting (here.allEvents tokens) = ([], [])
      ↔ Closes (waiting.map (·.name)) (tokens.filterMap Token.pairTag?) := by
  -- the three equations of `Closes` are the three ways in which a token acts
  induction tokens generalizing here waiting with
  | nil => simp [pairAll_nil, closes_end]
  | cons t tokens ih =>
    have htoken := pairAll_events (here.reach t.span.start) t waiting
    rw [Walk.allEvents_cons, pairAll_append]
    cases hcounted : t.pairTag? with
    | none =>
      rw [hcounted] at htoken
      simp only [htoken, List.nil_append, List.filterMap_cons_none hcounted]
      exact ih (here.after t) waiting
    | some counted =>
      rw [hcounted] at htoken
      rw [List.filterMap_cons_some hcounted]
      cases counted with
      | opens n =>
        rw [closes_opens]
        simp only [htoken, List.nil_append]
        exact ih (here.after t) (_ :: waiting)
      | closes n =>
        have hname : Event.tagName? ⟨.tagEnd n, t.raw, t.span, (here.reach t.span.start).location,
          ((here.reach t.span.start).inside.leave n).length⟩ = some n := rfl
        dsimp only at htoken
        rw [closes_closes, htoken]
        constructor
        · intro hsilent
          have hclose := (List.append_eq_nil_iff.1 (congrArg Prod.snd hsilent)).1
          rcases innermost_of_closeTag hname hclose with ⟨tag, outer, rfl, rfl⟩
          rw [closeTag_innermost hname] at hsilent
          exact ⟨outer.map (·.name), rfl, (ih (here.after t) outer).1 hsilent⟩
        · rintro ⟨names, hnames, hcloses⟩
          rcases List.map_eq_cons_iff.1 hnames with ⟨tag, outer, rfl, rfl, rfl⟩
          rw [closeTag_innermost hname]
          exact (ih (here.after t) outer).2 hcloses

/-- By itself, the pairing rule finds nothing exactly in the balanced documents. -/
theorem findings_tagPair_eq_nil_iff (document : List Char) :
    tagPair.findings document = [] ↔ Balanced ((scan document).filterMap Token.pairTag?) := by
  have hrun : tagPair.findings document = (pairAll [] (events document)).2 := rfl
  have hwhole := pairAll_allEvents_iff (scan document) (Walk.atStart document) []
  have hstart : pairing startEvent [] = ([], []) := rfl
  rw [hrun, events_eq, pairAll_cons, hstart, pairAll_append, pairAll_finish]
  simp only [List.nil_append, closeDocument, List.append_eq_nil_iff, missing_eq_nil_iff]
  rw [and_comm]
  exact Prod.ext_iff.symm.trans hwhole

end Rule

namespace Registry

/-- Where the pairing rule is the only rule that is switched on, a document has no diagnostics
exactly if its tags are balanced. -/
theorem lint_tagPair_iff_balanced (registry : Registry) (rules : RuleSet) (document : List Char)
    (hknown : Rule.tagPair ∈ registry.rules)
    (hsole : ∀ rule ∈ registry.rules,
      (settleRules rules document).isEnabled rule.id = true ↔ rule.id = Rule.tagPair.id) :
    (registry.lint rules document).diagnostics = []
      ↔ Balanced ((scan document).filterMap Token.pairTag?) := by
  have hstarted : Rule.tagPair ∈ registry.started (settleRules rules document) :=
    mem_started.2 ⟨hknown, (hsole _ hknown).2 rfl, rfl⟩
  have honly : ∀ other ∈ registry.started (settleRules rules document),
      other.id = Rule.tagPair.id := by
    intro other hother
    rcases mem_started.1 hother with ⟨hmem, henabled, -⟩
    exact (hsole other hmem).1 henabled
  rw [registry.lint_diagnostics_of_sole rules document hstarted honly, List.map_eq_nil_iff]
  exact Rule.findings_tagPair_eq_nil_iff document

/-- A document with tags that cross: `<B><br><i></b></I>`. -/
def crossing : List Canonical.Item :=
  [.startTag ⟨['B'], by decide, by simp [endsTagName, isSpace]⟩ [] false,
    .startTag ⟨['b', 'r'], by decide, by simp [endsTagName, isSpace]⟩ [] false,
    .startTag ⟨['i'], by decide, by simp [endsTagName, isSpace]⟩ [] false,
    .endTag ⟨['b'], by decide, by simp [endsTagName, isSpace]⟩,
    .endTag ⟨['I'], by decide, by simp [endsTagName, isSpace]⟩]

/-- Every tag of the crossing document has a partner, and still it is complained about. -/
theorem lint_crossing_ne_nil :
    (∀ rule ∈ builtin.rules,
      (settleRules (RuleSet.off.set "tag-pair" true) (Canonical.render crossing)).isEnabled rule.id
        = true ↔ rule.id = Rule.tagPair.id)
      ∧ (builtin.lint (RuleSet.off.set "tag-pair" true) (Canonical.render crossing)).diagnostics
        ≠ [] := by
  have hrules : builtin.rules = builtinRules := rfl
  have hsole := builtin.isEnabled_iff_of_off_set (Canonical.render crossing) "tag-pair" rfl
  refine ⟨hsole, ?_⟩
  have hknown : Rule.tagPair ∈ builtin.rules := by
    rw [hrules]
    exact List.mem_cons_of_mem _ List.mem_cons_self
  have hscan : scan (Canonical.render crossing) = Canonical.tokensFrom 0 crossing :=
    Canonical.steps_render 0 none crossing (by decide)
  have hword : (scan (Canonical.render crossing)).filterMap Token.pairTag?
      = [opens ['b'], opens ['i'], closes ['b'], closes ['i']] := by
    rw [hscan]
    decide
  rw [Ne, lint_tagPair_iff_balanced builtin _ _ hknown hsole, hword]
  -- when `</b>` comes, `i` is on top
  intro hbalanced
  have hcloses : Closes [['i'], ['b']] [closes ['b'], closes ['i']] :=
    (closes_opens _ _ _).1 ((closes_opens [] _ _).1 hbalanced)
  rcases (closes_closes _ _ _).1 hcloses with ⟨outer, hstack, -⟩
  cases hstack

end Registry

end HtmlLint
