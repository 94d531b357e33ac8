import HtmlLint.Proofs.Balance
import Mathlib.Data.List.TakeWhile

/-!
# The pairing rule keeps the open elements

The pairing rule has its own stack of start tags that wait for their end tags, and the events know
the elements that are open. The two are written apart: the rule passes over more elements than those
that never have content, and at an end tag the element is closed before the rule hears of it. Still
the names of the waiting tags are the open elements after every token, unless the document opens one
of the elements that only the rule passes over (`Rule.formerElements`).

So the rule complains about an end tag exactly if it closes nothing, and at the end of the document
exactly if something is open there.
-/

namespace HtmlLint

open PairTag

/-! ## Elements without end tags -/

/-- The elements that need no end tag, though they are not among those without content. -/
def Rule.formerElements : List (List Char) :=
  ["basefont", "command", "frame", "isindex", "keygen"].map String.toList

theorem Rule.mem_unpairedElements_iff (name : List Char) :
    name ∈ unpairedElements ↔ name ∈ voidElements ∨ name ∈ formerElements := by
  have hsplit : ∀ n ∈ unpairedElements, n ∈ voidElements ∨ n ∈ formerElements := by decide
  have hvoid : ∀ n ∈ voidElements, n ∈ unpairedElements := by decide
  have hformer : ∀ n ∈ formerElements, n ∈ unpairedElements := by decide
  exact ⟨hsplit name, fun h => h.elim (hvoid name) (hformer name)⟩

/-- The name of a start tag, in lower case. -/
def Token.startName? (t : Token) : Option (List Char) :=
  match t.kind with
  | .startTag name _ _ => some (Text.lower name)
  | _ => none

/-- The token is not a start tag of an element that only the pairing rule passes over. -/
def Token.OpensAlike (t : Token) : Prop :=
  ∀ name ∈ t.startName?, name ∉ Rule.formerElements

instance (t : Token) : Decidable t.OpensAlike :=
  inferInstanceAs (Decidable (∀ name ∈ t.startName?, name ∉ Rule.formerElements))

/-- The open elements after a token, by the tag it counts as. -/
theorem Walk.insideAfter_eq (here : Walk) {t : Token} (halike : t.OpensAlike) :
    here.insideAfter t =
      match t.pairTag? with
      | none => here.inside
      | some (opens n) => n :: here.inside
      | some (closes n) => here.inside.leave n := by
  cases hkind : t.kind with
  | startTag name attributes selfClosing =>
    have hsame : Text.lower name ∈ Rule.unpairedElements ↔ Text.lower name ∈ voidElements := by
      have hstart : t.startName? = some (Text.lower name) := by simp [Token.startName?, hkind]
      rw [Rule.mem_unpairedElements_iff, or_iff_left (halike _ hstart)]
    by_cases hpassed : selfClosing = true ∨ Text.lower name ∈ voidElements
    · simp [insideAfter, Token.pairTag?, hkind, OpenElements.enter, hsame, hpassed]
    · simp [insideAfter, Token.pairTag?, hkind, OpenElements.enter, hsame, hpassed]
  | _ => simp only [insideAfter, Token.pairTag?, hkind]

/-! ## The waiting tags and the open elements -/

/-- Leaving an element, on a stack of which the open elements are the names. -/
theorem OpenElements.leave_map {α : Type} (name : α → List Char) (inside : List α)
    (n : List Char) :
    leave (inside.map name) n
      = (match inside.dropWhile (name · != n) with
          | [] => inside
          | _ :: outer => outer).map name := by
  rw [leave, List.dropWhile_map]
  cases hfound : inside.dropWhile (name · != n) with
  | nil => simp [Function.comp_def, hfound]
  | cons tag outer => simp [Function.comp_def, hfound]

namespace Rule

/-- An end tag takes from the waiting tags what it closes. -/
theorem names_closeTag {e : Event} {n : List Char} (hname : e.tagName? = some n)
    (waiting : List OpenTag) :
    (closeTag e waiting).1.map (·.name) = OpenElements.leave (waiting.map (·.name)) n := by
  simp only [closeTag, hname, OpenElements.leave_map]
  cases waiting.dropWhile (·.name != n) with
  | nil => rfl
  | cons tag outer => rfl

/-- One token keeps the waiting tags in step with the open elements. -/
theorem names_pairAll_events {here : Walk} {t : Token} (halike : t.OpensAlike)
    {waiting : List OpenTag} (hnames : waiting.map (·.name) = here.inside) :
    (pairAll waiting ((here.reach t.span.start).events t)).1.map (·.name)
      = (here.after t).inside := by
  have hinside : (here.after t).inside = here.insideAfter t := rfl
  rw [hinside, here.insideAfter_eq halike, pairAll_events]
  cases t.pairTag? with
  | none => exact hnames
  | some counted =>
    cases counted with
    | opens n => exact congrArg (n :: ·) hnames
    | closes n =>
      rw [← hnames]
      exact names_closeTag rfl waiting

/-- Any tokens keep the waiting tags in step with the open elements. -/
theorem names_pairAll_allEvents {tokens : List Token} (halike : ∀ t ∈ tokens, t.OpensAlike)
    {here : Walk} {waiting : List OpenTag} (hnames : waiting.map (·.name) = here.inside) :
    (pairAll waiting (here.allEvents tokens)).1.map (·.name) = (here.afterAll tokens).inside := by
  induction tokens generalizing here waiting with
  | nil => exact hnames
  | cons t tokens ih =>
    rw [Walk.allEvents_cons, pairAll_append]
    exact ih (fun u hu => halike u (List.mem_cons_of_mem t hu))
      (names_pairAll_events (halike t List.mem_cons_self) hnames)

/-! ## Complaints -/

/-- The complaint about an end tag without a start tag. -/
def noStartMessage (raw : List Char) : String :=
  "Tag must be paired, no start tag: [ " ++ String.ofList raw ++ " ]"

theorem getElem?_toList_append {a b : String} {n : Nat} {c : Char} (h : a.toList[n]? = some c) :
    (a ++ b).toList[n]? = some c := by
  rw [String.toList_append, List.getElem?_append_left (List.getElem?_eq_some_iff.1 h).1, h]

/-- The two complaints of the rule differ. -/
theorem missingMessage?_ne (tags : List OpenTag) (raw : List Char) :
    missingMessage? tags ≠ some (noStartMessage raw) := by
  intro h
  -- the texts part after the comma
  have hstray : (noStartMessage raw).toList[20]? = some 'n' := by
    iterate 2 apply getElem?_toList_append
    decide +kernel
  cases tags with
  | nil => cases h
  | cons innermost outer =>
    have hmissing : ∀ m ∈ missingMessage? (innermost :: outer), m.toList[20]? = some 'm' := by
      rintro m ⟨⟩
      iterate 6 apply getElem?_toList_append
      decide +kernel
    have hletter := hmissing _ h
    rw [hstray] at hletter
    cases hletter

/-- An end tag has no start tag exactly if no waiting tag has its name. -/
theorem exists_noStart_iff {e : Event} {n : List Char} (hname : e.tagName? = some n)
    (waiting : List OpenTag) :
    (∃ f ∈ (closeTag e waiting).2, f.message = noStartMessage e.raw)
      ↔ n ∉ waiting.map (·.name) := by
  have hnone : waiting.dropWhile (·.name != n) = [] ↔ n ∉ waiting.map (·.name) := by
    simp [List.dropWhile_eq_nil_iff]
  simp only [closeTag, hname]
  rw [← hnone]
  cases hfound : waiting.dropWhile (·.name != n) with
  | nil => exact iff_of_true ⟨_, List.mem_singleton_self _, rfl⟩ rfl
  | cons tag outer =>
    refine iff_of_false ?_ (List.cons_ne_nil tag outer)
    rintro ⟨f, hf, hmessage⟩
    rcases List.mem_map.1 hf with ⟨message, hmem, rfl⟩
    have hmessage : message = noStartMessage e.raw := hmessage
    rw [Option.mem_toList, hmessage] at hmem
    exact missingMessage?_ne _ e.raw hmem

end Rule

/-! ## In a pass -/

/-- The events of a document up to the last of some tokens. -/
def eventsThrough (document : List Char) (tokens : List Token) : List Event :=
  startEvent :: (Walk.atStart document).allEvents tokens

theorem eventsThrough_append (document : List Char) (a b : List Token) :
    eventsThrough document (a ++ b)
      = eventsThrough document a ++ ((Walk.atStart document).afterAll a).allEvents b := by
  rw [eventsThrough, Walk.allEvents_append]
  rfl

theorem events_eq_eventsThrough (document : List Char) :
    events document = eventsThrough document (scan document)
      ++ [finishEvent document ((Walk.atStart document).afterAll (scan document))] :=
  rfl

namespace Rule

/-- The waiting tags of the pairing rule after some tokens of a document. -/
theorem hearAll_eventsThrough (document : List Char) (tokens : List Token) :
    tagPair.hearAll tagPair.initial (eventsThrough document tokens)
      = pairAll [] ((Walk.atStart document).allEvents tokens) := by
  have hstart : pairing startEvent [] = ([], []) := rfl
  have hcons := pairAll_cons startEvent ((Walk.atStart document).allEvents tokens) []
  rw [hstart] at hcons
  exact hcons

end Rule

namespace Registry

/-- Some of the further diagnostics are the rule's exactly if it has found something. -/
theorem exists_rule_iff {added : List Diagnostic} {id : String} {found : List Finding}
    {lines : List (List Char)}
    (h : added.filter (·.rule = id) = found.map (·.diagnose lines id)) :
    (∃ d ∈ added, d.rule = id) ↔ found ≠ [] := by
  have hnone : added.filter (·.rule = id) = [] ↔ ∀ d ∈ added, d.rule ≠ id := by
    simp [List.filter_eq_nil_iff]
  rw [h, List.map_eq_nil_iff] at hnone
  rw [Ne, hnone]
  push Not
  rfl

/-- A message among further diagnostics is one that the rule has found. -/
theorem exists_diagnosed_iff {added : List Diagnostic} {id : String} {found : List Finding}
    {lines : List (List Char)}
    (h : added.filter (·.rule = id) = found.map (·.diagnose lines id)) {message : String} :
    (∃ d ∈ added, d.rule = id ∧ d.message = message) ↔ ∃ f ∈ found, f.message = message := by
  constructor
  · rintro ⟨d, hd, hrule, rfl⟩
    have hmem : d ∈ added.filter (·.rule = id) := List.mem_filter.2 ⟨hd, by simpa using hrule⟩
    rw [h] at hmem
    rcases List.mem_map.1 hmem with ⟨f, hf, rfl⟩
    exact ⟨f, hf, rfl⟩
  · rintro ⟨f, hf, rfl⟩
    have hmem := List.mem_map_of_mem (f := (·.diagnose lines id)) hf
    rw [← h] at hmem
    rcases List.mem_filter.1 hmem with ⟨hd, -⟩
    exact ⟨_, hd, rfl, rfl⟩

/-- What an end tag adds to the diagnostics says that there is no start tag exactly if no waiting
tag has its name. -/
theorem passOver_endTag (registry : Registry) (rules : RuleSet) (document : List Char)
    (hstarted : Rule.tagPair ∈ registry.started (settleRules rules document))
    (before : List Token) {t : Token} {name : List Char} (hkind : t.kind = .endTag name) :
    ∃ added,
      (registry.passOver rules document (eventsThrough document (before ++ [t]))).diagnostics.toList
        = (registry.passOver rules document (eventsThrough document before)).diagnostics.toList
          ++ added
      ∧ ((∃ d ∈ added, d.rule = Rule.tagPair.id ∧ d.message = Rule.noStartMessage t.raw)
        ↔ Text.lower name
          ∉ (Rule.pairAll [] ((Walk.atStart document).allEvents before)).1.map (·.name)) := by
  rcases registry.passOver_append rules document hstarted (eventsThrough document before)
    (((Walk.atStart document).afterAll before).allEvents [t]) with ⟨added, hsplit, hfound⟩
  have hcounted : t.pairTag? = some (closes (Text.lower name)) := by
    simp [Token.pairTag?, hkind]
  have hclose := Rule.pairAll_events
    (((Walk.atStart document).afterAll before).reach t.span.start) t
    (Rule.pairAll [] ((Walk.atStart document).allEvents before)).1
  rw [hcounted, Rule.pairAll] at hclose
  rw [Rule.hearAll_eventsThrough, Walk.allEvents_cons, Walk.allEvents_nil, List.append_nil,
    hclose] at hfound
  rw [← eventsThrough_append] at hsplit
  refine ⟨added, hsplit, ?_⟩
  rw [exists_diagnosed_iff hfound]
  exact Rule.exists_noStart_iff rfl _

/-- The end of the document adds a diagnostic of the rule exactly if tags are waiting. -/
theorem passOver_finish (registry : Registry) (rules : RuleSet) (document : List Char)
    (hstarted : Rule.tagPair ∈ registry.started (settleRules rules document)) :
    ∃ added,
      (registry.lint rules document).diagnostics
        = (registry.passOver rules document
            (eventsThrough document (scan document))).diagnostics.toList ++ added
      ∧ ((∃ d ∈ added, d.rule = Rule.tagPair.id)
        ↔ (Rule.pairAll [] ((Walk.atStart document).allEvents (scan document))).1 ≠ []) := by
  rcases registry.passOver_append rules document hstarted (eventsThrough document (scan document))
    [finishEvent document ((Walk.atStart document).afterAll (scan document))] with
    ⟨added, hsplit, hfound⟩
  have hclose := Rule.pairAll_finish document ((Walk.atStart document).afterAll (scan document))
    (Rule.pairAll [] ((Walk.atStart document).allEvents (scan document))).1
  rw [Rule.pairAll] at hclose
  rw [Rule.hearAll_eventsThrough, hclose] at hfound
  rw [← events_eq_eventsThrough, ← lint_diagnostics_eq_passOver] at hsplit
  refine ⟨added, hsplit, ?_⟩
  rw [exists_rule_iff hfound]
  exact Rule.missing_eq_nil_iff.not

/-- Where the pairing rule is switched on, and no start tag is of an element that only the rule
passes over, the names of the waiting tags are the open elements after every token. An end tag is
reported to have no start tag exactly if no open element has its name, and the end of the document
is reported exactly if elements are open there. -/
theorem waiting_tags_are_open_elements (registry : Registry) (rules : RuleSet)
    (document : List Char) (hknown : Rule.tagPair ∈ registry.rules)
    (henabled : (settleRules rules document).isEnabled Rule.tagPair.id = true)
    (halike : ∀ t ∈ scan document, t.OpensAlike) :
    (∀ tokens, tokens <+: scan document → ∃ waiting : List Rule.OpenTag,
        (registry.passOver rules document (eventsThrough document tokens)).sessions.filter
            (·.rule.id = Rule.tagPair.id) = [⟨Rule.tagPair, waiting⟩]
          ∧ waiting.map (·.name) = ((Walk.atStart document).afterAll tokens).inside)
      ∧ (∀ before t after name, scan document = before ++ t :: after → t.kind = .endTag name →
        ∃ added,
          (registry.passOver rules document
              (eventsThrough document (before ++ [t]))).diagnostics.toList
            = (registry.passOver rules document (eventsThrough document before)).diagnostics.toList
              ++ added
          ∧ ((∃ d ∈ added, d.rule = Rule.tagPair.id ∧ d.message = Rule.noStartMessage t.raw)
            ↔ Text.lower name ∉ ((Walk.atStart document).afterAll before).inside))
      ∧ ∃ added,
          (registry.lint rules document).diagnostics
            = (registry.passOver rules document
                (eventsThrough document (scan document))).diagnostics.toList ++ added
          ∧ ((∃ d ∈ added, d.rule = Rule.tagPair.id)
            ↔ 0 < (finishEvent document
                ((Walk.atStart document).afterAll (scan document))).depth) := by
  have hstarted : Rule.tagPair ∈ registry.started (settleRules rules document) :=
    mem_started.2 ⟨hknown, henabled, rfl⟩
  have hnames : ∀ tokens, tokens <+: scan document →
      (Rule.pairAll [] ((Walk.atStart document).allEvents tokens)).1.map (·.name)
        = ((Walk.atStart document).afterAll tokens).inside := by
    intro tokens hread
    exact Rule.names_pairAll_allEvents (fun t ht => halike t (hread.subset ht)) rfl
  refine ⟨?_, ?_, ?_⟩
  · intro tokens hread
    refine ⟨_, ?_, hnames tokens hread⟩
    rw [← Rule.hearAll_eventsThrough]
    exact (registry.passOver_tracks rules document hstarted _).session
  · intro before t after name hscan hkind
    rw [← hnames before ⟨t :: after, hscan.symm⟩]
    exact registry.passOver_endTag rules document hstarted before hkind
  · have hdepth : (finishEvent document ((Walk.atStart document).afterAll (scan document))).depth
        = (Rule.pairAll [] ((Walk.atStart document).allEvents (scan document))).1.length := by
      rw [← List.length_map (·.name), hnames _ (List.prefix_refl _)]
      rfl
    rw [hdepth, List.length_pos_iff]
    exact registry.passOver_finish rules document hstarted

/-- A document in which `i` is left out, `p` is never opened and `u` is never closed. -/
def strayTags : List Char :=
  "<B><br><i></b></p>\n<u>".toList

/-- After `<B><br><i>` the rule waits for `i` and `b`. It complains about `</p>`, and about `u` at
the end. -/
theorem waiting_tags_strayTags :
    (∃ waiting : List Rule.OpenTag,
        (builtin.passOver (RuleSet.off.set "tag-pair" true) strayTags
            (eventsThrough strayTags ((scan strayTags).take 3))).sessions.filter
            (·.rule.id = Rule.tagPair.id) = [⟨Rule.tagPair, waiting⟩]
          ∧ waiting.map (·.name) = [['i'], ['b']])
      ∧ (∃ d ∈ (builtin.passOver (RuleSet.off.set "tag-pair" true) strayTags
            (eventsThrough strayTags ((scan strayTags).take 5))).diagnostics.toList,
          d.rule = Rule.tagPair.id ∧ d.message = "Tag must be paired, no start tag: [ </p> ]")
      ∧ ∃ earlier later,
          (builtin.lint (RuleSet.off.set "tag-pair" true) strayTags).diagnostics = earlier ++ later
            ∧ ∃ d ∈ later, d.rule = Rule.tagPair.id := by
  have hknown : Rule.tagPair ∈ builtin.rules := List.mem_cons_of_mem _ List.mem_cons_self
  have henabled : (settleRules (RuleSet.off.set "tag-pair" true) strayTags).isEnabled
      Rule.tagPair.id = true := by
    decide +kernel
  rcases waiting_tags_are_open_elements builtin (RuleSet.off.set "tag-pair" true) strayTags hknown
    henabled (by decide +kernel) with ⟨hstack, hends, hfinish⟩
  refine ⟨?_, ?_, ?_⟩
  · rcases hstack _ (List.take_prefix 3 _) with ⟨waiting, hsession, hnames⟩
    refine ⟨waiting, hsession, ?_⟩
    rw [hnames]
    decide +kernel
  · have hscan : scan strayTags = (scan strayTags).take 4
        ++ ⟨.endTag ['p'], "</p>".toList, ⟨14, 18⟩⟩ :: (scan strayTags).drop 5 := by
      decide +kernel
    rcases hends _ _ _ _ hscan rfl with ⟨added, hsplit, hiff⟩
    rcases hiff.2 (by decide +kernel) with ⟨d, hd, hrule, hmessage⟩
    have htake : (scan strayTags).take 5 = (scan strayTags).take 4
        ++ [⟨.endTag ['p'], "</p>".toList, ⟨14, 18⟩⟩] := by
      decide +kernel
    rw [htake, hsplit]
    exact ⟨d, List.mem_append_right _ hd, hrule, hmessage⟩
  · rcases hfinish with ⟨added, hsplit, hiff⟩
    exact ⟨_, added, hsplit, hiff.2 (by decide +kernel)⟩

end Registry

end HtmlLint
