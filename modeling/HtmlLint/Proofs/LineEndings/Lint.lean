import HtmlLint.Proofs.LineEndings.Rules
import HtmlLint.Proofs.RuleRuns

/-!
# Linting does not see the ends of lines

A document and the same document with a carriage return before every line feed get the same report:
the same diagnostics in the same order, at the same lines and columns and with the same lines as
evidence. The texts that diagnostics quote have the ends of lines of their document.

* `Session.Twin`, `Pass.Twin` — two passes in step: one event after the other, each rule of the one
  is where it is in the other, and the same has been found.
* `Registry.lint_crlf_of_follows` — for any rules that follow the change.
-/

namespace HtmlLint

/-! ## The lines of a document -/

theorem withoutReturn_cons {c : Char} (h : c ≠ '\r') (line : List Char) :
    withoutReturn (c :: line) = c :: withoutReturn line := by
  cases line with
  | nil => simp [withoutReturn, h]
  | cons d line =>
    simp only [withoutReturn, List.getLast?_cons_cons]
    split <;> rfl

/-- Both documents have the same lines. -/
theorem sourceLines_crlf {document : List Char} (h : '\r' ∉ document) :
    sourceLines (Text.crlf document) = sourceLines document := by
  induction document with
  | nil => rfl
  | cons c s ih =>
    rcases not_or.1 (mt List.mem_cons.2 h) with ⟨hreturn, hs⟩
    have hrest := ih hs
    simp only [sourceLines] at hrest ⊢
    by_cases hc : c = '\n'
    · subst hc
      -- the return ends the first line, and is taken off it
      have hwhole : Text.crlf ('\n' :: s) = '\r' :: '\n' :: Text.crlf s := rfl
      rw [hwhole, Text.splitOn_cons_of_ne (by decide), Text.splitOn_cons_self,
        Text.splitOn_cons_self, List.modifyHead_cons, List.map_cons, List.map_cons, hrest]
      rfl
    · have hwhole : Text.crlf (c :: s) = c :: Text.crlf s := by
        rw [← Recoding.crlf_apply, Recoding.apply_cons, Recoding.crlf_write_of_ne hc]
        rfl
      -- putting a character in front of the first line does not change where it ends
      have hfirst : ∀ lines : List (List Char), (lines.modifyHead (c :: ·)).map withoutReturn
          = (lines.map withoutReturn).modifyHead (c :: ·) := by
        intro lines
        cases lines with
        | nil => rfl
        | cons line lines => simp [withoutReturn_cons (Ne.symm hreturn)]
      rw [hwhole, Text.splitOn_cons_of_ne hc, Text.splitOn_cons_of_ne hc, hfirst, hfirst, hrest]

/-! ## The rules that run -/

namespace RuleSet

theorem openingComment?_crlf (document : List Char) :
    openingComment? (Text.crlf document) = (openingComment? document).map Text.crlf := by
  have hblank : Recoding.crlf.Keeps Text.isBlank := Recoding.crlf_keeps rfl
  have hopen := Recoding.crlf_exact.fixes_all (s := ['<', '!', '-', '-']) rfl
  have hclose := Recoding.crlf_exact.fixes_all (s := ['-', '-', '>']) rfl
  have hsees := Recoding.sees_startsWith hclose rfl
  simp only [openingComment?, ← Recoding.crlf_apply, Text.trimStart, hblank.dropWhile,
    Recoding.after?_apply hopen]
  cases Text.after? ['<', '!', '-', '-'] (document.dropWhile Text.isBlank) with
  | none => rfl
  | some s =>
    simp only [Option.map_some, Option.bind_eq_bind, Option.bind_some, hsees.breakAt,
      List.isEmpty_iff, Recoding.apply_eq_nil_iff]
    split <;> rfl

/-- A list of rules stands on one line, and a line end in it is one before and after. -/
theorem inlineList?_crlf (data : List Char) : inlineList? (Text.crlf data) = inlineList? data := by
  have hblank : Recoding.crlf.Keeps Text.isBlank := Recoding.crlf_keeps rfl
  have hend : Recoding.crlf.Keeps fun c => !(c == '\r' || c == '\n') := Recoding.crlf_keeps rfl
  have htrim : Text.trim (Text.crlf data) = Text.crlf (Text.trim data) := hblank.trim data
  have hany : ∀ s : List Char, s.any (fun c => c == '\r' || c == '\n')
      = !s.all fun c => !(c == '\r' || c == '\n') := by
    intro s
    rw [List.any_eq_not_all_not]
  have hlines : (Text.crlf (Text.trim data)).any (fun c => c == '\r' || c == '\n')
      = (Text.trim data).any (fun c => c == '\r' || c == '\n') := by
    rw [hany, hany, ← Recoding.crlf_apply, hend.all]
  simp only [inlineList?, htrim, hlines]
  split
  · rfl
  · next hone =>
    have hfeed : '\n' ∉ Text.trim data := by
      intro hmem
      exact hone (List.any_eq_true.2 ⟨'\n', hmem, rfl⟩)
    rw [Text.crlf_eq_self hfeed]

theorem ofDocument_crlf (document : List Char) :
    ofDocument (Text.crlf document) = ofDocument document := by
  have hlist : (openingComment? (Text.crlf document)).bind inlineList?
      = (openingComment? document).bind inlineList? := by
    rw [openingComment?_crlf, Option.bind_map]
    apply congrArg
    funext data
    exact inlineList?_crlf data
  rw [ofDocument, ofDocument, hlist]

end RuleSet

theorem settleRules_crlf (rules : RuleSet) (document : List Char) :
    settleRules rules (Text.crlf document) = settleRules rules document := by
  rw [settleRules, settleRules, RuleSet.ofDocument_crlf]

/-! ## Two passes in step -/

/-- The diagnostic with its message and its text recoded; all else is the same. -/
def Diagnostic.crlf (diagnostic : Diagnostic) : Diagnostic :=
  { diagnostic with
    message := Text.crlfString diagnostic.message
    raw := Text.crlf diagnostic.raw }

/-- A rule in the middle of a document, and in the middle of the recoded document. -/
inductive Session.Twin : Session → Session → Prop where
  | intro {rule : Rule} {Same : rule.State → rule.State → Prop} (hfollows : rule.Follows Same)
      {s t : rule.State} (hst : Same s t) : Session.Twin ⟨rule, s⟩ ⟨rule, t⟩

variable {e f : Event}

theorem Session.Twin.answer {a b : Session} (h : a.Twin b) (hsame : Recoding.crlf.SameEvent e f)
    (label : Handle) : (a.answer ⟨label, e⟩).1.Twin (b.answer ⟨label, f⟩).1
      ∧ (b.answer ⟨label, f⟩).2 = (a.answer ⟨label, e⟩).2.map Finding.crlf := by
  cases h with
  | @intro rule Same hfollows s t hst =>
    simp only [Session.answer, Session.react]
    split
    · cases hl : rule.listeners[label.listener]? with
      | none => exact ⟨.intro hfollows hst, rfl⟩
      | some l =>
        rcases hfollows.react l (List.mem_of_getElem? hl) hsame hst with ⟨hnext, hfound⟩
        exact ⟨.intro hfollows hnext, hfound⟩
    · exact ⟨.intro hfollows hst, rfl⟩

/-- A pass over a document and one over the recoded document, at the same event. -/
structure Pass.Twin (a b : Pass) : Prop where
  sessions : List.Forall₂ Session.Twin a.sessions b.sessions
  diagnostics : b.diagnostics.toList = a.diagnostics.toList.map Diagnostic.crlf

namespace Pass.Twin

variable {a b : Pass}

/-- Answering one call for each of two events that are the same. -/
theorem answer (h : a.Twin b) (hsame : Recoding.crlf.SameEvent e f) (lines : List (List Char))
    (label : Handle) : (a.answer lines ⟨label, e⟩).Twin (b.answer lines ⟨label, f⟩) := by
  have hfound : ∀ {s t : List Session}, List.Forall₂ Session.Twin s t →
      (t.map (·.answer ⟨label, f⟩)).flatMap (·.2)
        = ((s.map (·.answer ⟨label, e⟩)).flatMap (·.2)).map Finding.crlf := by
    intro s t hst
    induction hst with
    | nil => rfl
    | cons htwin _ ih =>
      simp only [List.map_cons, List.flatMap_cons, List.map_append, ih,
        (htwin.answer hsame label).2]
  constructor
  · simp only [Pass.answer, List.map_map]
    rw [List.forall₂_map_left_iff, List.forall₂_map_right_iff]
    exact h.sessions.imp fun _ _ htwin => (htwin.answer hsame label).1
  · simp only [Pass.answer, hfound h.sessions, Array.toList_appendList, List.map_append,
      List.map_map, h.diagnostics]
    rfl

theorem called_crlf (subs : Subscriptions Handle) (hsame : Recoding.crlf.SameEvent e f) :
    subs.called f = subs.called e := by
  have hkind : f.kind = e.kind := hsame.detail.kind
  have hdetail := hsame.detail
  rw [Subscriptions.called, Subscriptions.called, hkind]
  apply congrArg
  generalize e.detail = detail at hdetail
  generalize f.detail = detail' at hdetail
  cases hdetail <;> rfl

theorem foldl_labels (h : a.Twin b) (hsame : Recoding.crlf.SameEvent e f)
    (lines : List (List Char)) (labels : List Handle) :
    ((labels.map fun label => Call.mk label e).foldl (Pass.answer lines) a).Twin
      ((labels.map fun label => Call.mk label f).foldl (Pass.answer lines) b) := by
  induction labels generalizing a b with
  | nil => exact h
  | cons label labels ih => exact ih (h.answer hsame lines label)

/-- Two passes stay in step over all events. -/
theorem foldl_events (h : a.Twin b) (lines : List (List Char)) (subs : Subscriptions Handle)
    {es fs : List Event} (hsame : List.Forall₂ Recoding.crlf.SameEvent es fs) :
    ((es.flatMap fun e => (subs.called e).map fun label => Call.mk label e).foldl
        (Pass.answer lines) a).Twin
      ((fs.flatMap fun f => (subs.called f).map fun label => Call.mk label f).foldl
        (Pass.answer lines) b) := by
  induction hsame generalizing a b with
  | nil => exact h
  | cons hfirst _ ih =>
    rw [List.flatMap_cons, List.flatMap_cons, List.foldl_append, List.foldl_append,
      called_crlf subs hfirst]
    exact ih (h.foldl_labels hfirst lines _)

end Pass.Twin

/-! ## Reports -/

namespace Registry

/-- For any rules that follow the change, the report changes in the texts it quotes only. -/
theorem lint_crlf_of_follows {registry : Registry}
    (hfollows : ∀ rule ∈ registry.rules, ∃ Same, rule.Follows Same) (rules : RuleSet)
    {document : List Char} (hreturn : '\r' ∉ document) :
    (registry.lint rules (Text.crlf document)).diagnostics
        = (registry.lint rules document).diagnostics.map Diagnostic.crlf
      ∧ (registry.lint rules (Text.crlf document)).failures
        = (registry.lint rules document).failures := by
  have hevents := Recoding.events_apply Recoding.crlf_exact Recoding.crlf_keepsLocations document
  have hsessions : (registry.start (settleRules rules document)).sessions
      = (registry.started (settleRules rules document)).map Session.start :=
    (registry.start_holds _).sessions
  -- the same rules start, each in its initial state
  have hstart : Pass.Twin ⟨(registry.start (settleRules rules document)).sessions, #[]⟩
      ⟨(registry.start (settleRules rules document)).sessions, #[]⟩ := by
    refine ⟨?_, rfl⟩
    rw [hsessions, List.forall₂_map_left_iff, List.forall₂_map_right_iff, List.forall₂_same]
    intro rule hrule
    rcases hfollows rule (mem_started.1 hrule).1 with ⟨Same, hrule⟩
    exact .intro hrule hrule.initial
  have hpass := hstart.foldl_events (sourceLines document)
    (registry.start (settleRules rules document)).subscriptions hevents
  simp only [lint, settleRules_crlf, sourceLines_crlf hreturn, and_true]
  exact hpass.diagnostics

/-- With the rules of the library, a carriage return before every line feed changes nothing in the
report but the line ends in the texts that it quotes. -/
theorem builtin_lint_crlf (rules : RuleSet) {document : List Char} (hreturn : '\r' ∉ document) :
    (builtin.lint rules (Text.crlf document)).diagnostics
        = (builtin.lint rules document).diagnostics.map Diagnostic.crlf
      ∧ (builtin.lint rules (Text.crlf document)).failures
        = (builtin.lint rules document).failures := by
  refine lint_crlf_of_follows ?_ rules hreturn
  intro rule hrule
  have hcases : rule ∈ builtinRules := hrule
  simp only [builtinRules, List.mem_cons, List.not_mem_nil, or_false] at hcases
  rcases hcases with rfl | rfl | rfl | rfl | rfl
  · exact ⟨_, Rule.doctypeFirst_follows⟩
  · exact ⟨_, Rule.tagPair_follows⟩
  · exact ⟨_, Rule.attrLowercase_follows⟩
  · exact ⟨_, Rule.attrDoubleQuotes_follows⟩
  · exact ⟨_, Rule.spaceTabMixed_follows⟩

/-- A tag over two lines that is never closed, and a mixed line after it. -/
def openTagOverLines : List Char :=
  "<p\nA=b>\n \tx".toList

/-- All five rules complain about it in both forms. -/
theorem lint_crlf_openTagOverLines :
    '\r' ∉ openTagOverLines
      ∧ (builtin.lint .all openTagOverLines).diagnostics.length = 5
      ∧ (builtin.lint .all (Text.crlf openTagOverLines)).diagnostics
        = (builtin.lint .all openTagOverLines).diagnostics.map Diagnostic.crlf
      ∧ (builtin.lint .all (Text.crlf openTagOverLines)).failures
        = (builtin.lint .all openTagOverLines).failures := by
  refine ⟨by decide, by decide +kernel, ?_⟩
  exact builtin_lint_crlf .all (by decide)

end Registry

end HtmlLint
