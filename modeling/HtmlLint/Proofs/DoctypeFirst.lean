import HtmlLint.Proofs.EventPlaces
import HtmlLint.Proofs.FirstToken
import HtmlLint.Proofs.Recoding.Text
import HtmlLint.Proofs.RuleRuns
import HtmlLint.Rule.Registry

/-!
# The doctype comes first

The rule that asks for a doctype listens to all events of tokens. It stops listening at the first
one that is more than blank text, and it finds at most one thing: that this token does not declare
the doctype. Whether it does can be read off the document, from what stands behind its leading
blanks.

* `DeclaresDoctype` — a text that starts with a declaration of the doctype.
* `Rule.findings_doctypeFirst` — what the rule finds, by the first token.
* `Registry.lint_doctypeFirst` — what is reported, by the text of the document.
-/

namespace HtmlLint

/-! ## Declarations in text -/

/-- The text starts with `<!`, the word `doctype` in any case, and a space. -/
def DeclaresDoctype (s : List Char) : Prop :=
  ∃ word c rest, s = '<' :: '!' :: (word ++ c :: rest) ∧ Text.lower word = "doctype".toList
    ∧ isSpace c = true

theorem Rule.isDoctype_iff {data : List Char} :
    isDoctype data = true ↔ ∃ word c rest, data = word ++ c :: rest
      ∧ Text.lower word = "doctype".toList ∧ isSpace c = true := by
  have hspace : ∀ rest : List Char,
      rest.head?.any isSpace = true ↔ ∃ c r, rest = c :: r ∧ isSpace c = true := by
    intro rest
    cases rest <;> simp
  have hword : isDoctype data = true
      ↔ Text.sameIgnoringCase (data.take "doctype".toList.length) "doctype".toList = true
        ∧ (data.drop "doctype".toList.length).head?.any isSpace = true :=
    Bool.and_eq_true_iff
  have hlower : Text.lower "doctype".toList = "doctype".toList := by decide
  rw [hword, hspace, Text.exists_word_iff (p := fun u => ∃ c r, u = c :: r ∧ isSpace c = true),
    hlower]
  constructor
  · rintro ⟨word, _, hdata, hsame, c, rest, rfl, hc⟩
    exact ⟨word, c, rest, hdata, hsame, hc⟩
  · rintro ⟨word, c, rest, hdata, hsame, hc⟩
    exact ⟨word, c :: rest, hdata, hsame, c, rest, rfl, hc⟩

theorem Opening.afterBang_letter {c : Char} (h : c.isAlpha = true) (s : List Char) :
    afterBang (c :: s) = (declaration, c :: s) := by
  have hdash : '-' ≠ c := by rintro rfl; cases h
  have hbracket : '[' ≠ c := by rintro rfl; cases h
  simp [afterBang, Text.after?, hdash, hbracket]

/-- Data that ends at a `>` starts with any text that has none. -/
theorem readEnclosed_data_append {a : List Char} (ha : '>' ∉ a) (s : List Char) :
    (readEnclosed ['>'] (a ++ s)).data = a ++ (readEnclosed ['>'] s).data := by
  have hdata : ∀ u, (readEnclosed ['>'] u).data = (Text.breakAt (Text.startsWith ['>']) u).1 := by
    intro u
    unfold readEnclosed
    dsimp only
    split <;> rfl
  rw [hdata, hdata]
  induction a with
  | nil => rfl
  | cons c a ih =>
    rw [List.mem_cons, not_or] at ha
    have hstarts : Text.startsWith ['>'] (c :: (a ++ s)) = false := by
      simp [Text.startsWith, Text.after?, ha.1]
    rw [List.cons_append, Text.breakAt_cons, hstarts, List.cons_append, ← ih ha.2]
    rfl

/-- The doctype is declared by markup that is read as a declaration of it. -/
theorem declaresDoctype_iff {s : List Char} (o : Nat) :
    DeclaresDoctype s ↔ ∃ op rest data, opening? s = some (op, rest)
      ∧ (readMarkup o op rest).kind = .declaration data ∧ Rule.isDoctype data = true := by
  constructor
  · rintro ⟨word, c, rest, rfl, hword, hc⟩
    -- a letter opens neither a comment nor a section, and no `>` ends the data before the space
    have hletters : ∀ d ∈ word, d.isAlpha = true := by
      apply isAlpha_of_lower
      rw [hword]
      decide
    have hopening : opening? ('<' :: '!' :: (word ++ c :: rest))
        = some (.declaration, word ++ c :: rest) := by
      cases word with
      | nil => cases hword
      | cons d word =>
        exact congrArg some (Opening.afterBang_letter (hletters d List.mem_cons_self) _)
    have hclose : '>' ∉ word ++ [c] := by
      intro hmem
      rcases List.mem_append.1 hmem with hmem | hmem
      · have hletter := hletters '>' hmem
        cases hletter
      · rw [← List.mem_singleton.1 hmem] at hc
        cases hc
    have hdata := readEnclosed_data_append hclose rest
    rw [List.append_assoc, List.append_assoc] at hdata
    exact ⟨_, _, _, hopening, rfl, Rule.isDoctype_iff.2 ⟨word, c, _, hdata, hword, hc⟩⟩
  · rintro ⟨op, rest, data, hopening, hkind, hdata⟩
    have hop := readMarkup_kind o op rest
    rw [hkind] at hop
    obtain rfl : op = .declaration := hop
    obtain rfl : (readEnclosed ['>'] rest).data = data := Token.Kind.declaration.inj hkind
    have hrest := readEnclosed_append ['>'] rest
    rcases Rule.isDoctype_iff.1 hdata with ⟨word, c, r, hsplit, hword, hc⟩
    rw [hsplit, List.append_assoc] at hrest
    have hs := opening?_append hopening
    rw [← hrest] at hs
    exact ⟨word, c, _, hs, hword, hc⟩

/-- The token declares the doctype. -/
def Token.isDoctype (t : Token) : Bool :=
  match t.kind with
  | .declaration data => Rule.isDoctype data
  | _ => false

/-- Whether the first token declares the doctype can be told from the text behind the blanks. -/
theorem isDoctype_firstToken_iff {document : List Char} {t : Token}
    (h : (scan document).find? (!·.isBlankText) = some t) :
    t.isDoctype = true ↔ DeclaresDoctype (Text.trimStart document) := by
  rw [declaresDoctype_iff t.span.start]
  rcases firstToken_cases h with ⟨-, ⟨hkind, hplain⟩ | ⟨op, s, hopening, hkind, -⟩⟩
  · -- a text is no declaration, and none opens behind the blanks
    constructor
    · intro hdoctype
      rw [Token.isDoctype, hkind] at hdoctype
      cases hdoctype
    · rintro ⟨op, s, data, hopening, -⟩
      rw [opensMarkup, hopening] at hplain
      cases hplain
  · simp only [hopening, Option.some.injEq, Prod.mk.injEq]
    constructor
    · intro hdoctype
      rw [Token.isDoctype] at hdoctype
      split at hdoctype
      · next data hdeclares => exact ⟨op, s, data, ⟨rfl, rfl⟩, hkind.symm.trans hdeclares, hdoctype⟩
      · cases hdoctype
    · rintro ⟨_, _, data, ⟨rfl, rfl⟩, hdeclares, hdoctype⟩
      rw [Token.isDoctype, hkind, hdeclares]
      exact hdoctype

/-! ## What the rule finds -/

namespace Rule

/-- What the rule does with an event, of which it passes over the first and the last one. -/
def checking (e : Event) (decided : Bool) : Bool × List Finding :=
  match e.kind with
  | .start | .finish => (decided, [])
  | _ => checkDoctype e decided

theorem hear_doctypeFirst (e : Event) (decided : Bool) :
    Listener.reactAll e (doctypeFirst.heard e) decided = checking e decided := by
  rcases e with ⟨detail, raw, span, location, depth⟩
  cases detail with
  | start => rfl
  | finish => rfl
  | _ => exact Prod.ext rfl (List.append_nil _)

/-- Whether it is decided after some events, and what the rule has found in them. -/
def checkAll (decided : Bool) (list : List Event) : Bool × List Finding :=
  doctypeFirst.hearAll decided list

theorem checkAll_cons (e : Event) (list : List Event) (decided : Bool) :
    checkAll decided (e :: list)
      = ((checkAll (checking e decided).1 list).1,
          (checking e decided).2 ++ (checkAll (checking e decided).1 list).2) := by
  rw [← hear_doctypeFirst]
  rfl

theorem checkAll_append (a b : List Event) (decided : Bool) :
    checkAll decided (a ++ b)
      = ((checkAll (checkAll decided a).1 b).1,
          (checkAll decided a).2 ++ (checkAll (checkAll decided a).1 b).2) :=
  doctypeFirst.hearAll_append decided a b

/-- Once it is decided, nothing more is found. -/
theorem checkAll_decided (list : List Event) : checkAll true list = (true, []) := by
  induction list with
  | nil => rfl
  | cons e list ih =>
    have hfirst : checking e true = (true, []) := by
      unfold checking
      split <;> rfl
    rw [checkAll_cons, hfirst, ih]
    rfl

/-- What is found where `t` is the first token that is more than blank text. -/
def doctypeFindings (document : List Char) (t : Token) : List Finding :=
  if t.isDoctype then []
  else [⟨.error, "Doctype must be first.",
    Location.start.after (Text.takeBytes t.span.start document), t.raw⟩]

/-- Blank text decides nothing. -/
theorem checkAll_events_of_blank {here : Walk} {t : Token} (ht : t.isBlankText = true) :
    checkAll false (here.events t) = (false, []) := by
  simp only [Token.isBlankText, Bool.and_eq_true, beq_iff_eq] at ht
  have hevents : here.events t = [⟨.text, t.raw, t.span, here.location, here.inside.length⟩] := by
    rw [Walk.events, ht.1]
    rfl
  have hfirst : checking ⟨.text, t.raw, t.span, here.location, here.inside.length⟩ false
      = (false, []) := by
    simp [checking, checkDoctype, isSignificant, Event.kind, Event.Detail.kind, ht.2]
  rw [hevents, checkAll_cons, hfirst]
  rfl

/-- Any other token decides, by the first of its events. -/
theorem checkAll_events {here : Walk} {t : Token} (ht : t.isBlankText = false)
    {document : List Char}
    (hlocation : here.location = Location.start.after (Text.takeBytes t.span.start document)) :
    checkAll false (here.events t) = (true, doctypeFindings document t) := by
  have hfirst : ∃ e items, here.events t = e :: items
      ∧ checking e false = (true, doctypeFindings document t) := by
    rw [doctypeFindings, ← hlocation, Token.isDoctype, Walk.events]
    cases hkind : t.kind with
    | text =>
      have hraw : t.raw.all Text.isBlank = false := by
        simpa only [Token.isBlankText, hkind, beq_self_eq_true, Bool.true_and] using ht
      refine ⟨_, [], rfl, ?_⟩
      simp [checking, checkDoctype, checkDoctype.complaint, isSignificant, Walk.events.event,
        Event.kind, Event.Detail.kind, hraw]
    | declaration data => exact ⟨_, [], rfl, rfl⟩
    | _ => exact ⟨_, _, rfl, rfl⟩
  rcases hfirst with ⟨e, items, hevents, hfirst⟩
  rw [hevents, checkAll_cons, hfirst, checkAll_decided, List.append_nil]

/-- The first token that is more than blank text decides. -/
theorem checkAll_allEvents {here : Walk} {document : List Char} (hwalk : here.ReadsFrom document)
    (tokens : List Token) :
    (checkAll false (here.allEvents tokens)).2
      = (tokens.find? (!·.isBlankText)).elim [] (doctypeFindings document) := by
  induction tokens generalizing here with
  | nil => rfl
  | cons t tokens ih =>
    rw [Walk.allEvents_cons, checkAll_append]
    by_cases hblank : t.isBlankText = true
    · rw [checkAll_events_of_blank hblank, List.find?_cons_of_neg (by simp [hblank])]
      exact ih (hwalk.after t)
    · have ht : t.isBlankText = false := by simpa using hblank
      have hlocation : (here.reach t.span.start).location
          = Location.start.after (Text.takeBytes t.span.start document) := by
        rw [Walk.location, hwalk.locator_reach]
        rfl
      rw [checkAll_events ht hlocation, checkAll_decided,
        List.find?_cons_of_pos (by simp [ht]), List.append_nil]
      rfl

theorem findings_doctypeFirst (document : List Char) :
    doctypeFirst.findings document
      = ((scan document).find? (!·.isBlankText)).elim [] (doctypeFindings document) := by
  have hwalk := checkAll_allEvents (Walk.atStart_readsFrom document) (scan document)
  have hfindings : doctypeFirst.findings document = (checkAll false (events document)).2 := rfl
  have hstart : checking startEvent false = (false, []) := rfl
  have hfinish : ∀ here decided, checkAll decided [finishEvent document here] = (decided, []) :=
    fun _ _ => rfl
  rw [hfindings, events_eq, checkAll_cons, hstart, List.nil_append, checkAll_append, hfinish,
    List.append_nil, hwalk]

end Rule

/-! ## What is reported -/

namespace Registry

/-- Where the rule that asks for a doctype is the only one that is switched on, nothing is reported
exactly if the document is blank or declares the doctype behind its leading blanks. Otherwise there
is one diagnostic, with the text and the location of the first token that is more than blank text.
-/
theorem lint_doctypeFirst (registry : Registry) (rules : RuleSet) (document : List Char)
    (hknown : Rule.doctypeFirst ∈ registry.rules)
    (hsole : ∀ rule ∈ registry.rules,
      (settleRules rules document).isEnabled rule.id = true ↔ rule.id = Rule.doctypeFirst.id) :
    let diagnostics := (registry.lint rules document).diagnostics
    (diagnostics = []
        ↔ Text.trimStart document = [] ∨ DeclaresDoctype (Text.trimStart document))
      ∧ (diagnostics ≠ [] → ∃ t d, (scan document).find? (!·.isBlankText) = some t
        ∧ diagnostics = [d] ∧ d.raw = t.raw
        ∧ d.location = Location.start.after (Text.takeBytes t.span.start document)
        ∧ d.rule = Rule.doctypeFirst.id ∧ d.severity = .error
        ∧ d.message = "Doctype must be first.") := by
  intro diagnostics
  have hdiagnostics : diagnostics = (((scan document).find? (!·.isBlankText)).elim []
      (Rule.doctypeFindings document)).map
        (·.diagnose (sourceLines document) Rule.doctypeFirst.id) := by
    rw [← Rule.findings_doctypeFirst]
    exact registry.lint_diagnostics_of_sole_id rules document hknown rfl hsole
  rw [hdiagnostics]
  cases hfind : (scan document).find? (!·.isBlankText) with
  | none =>
    have hblank := scan_find?_eq_none_iff.1 hfind
    simp [hblank]
  | some t =>
    have hmore := (firstToken_cases hfind).1
    rw [Option.elim_some, Rule.doctypeFindings, ← isDoctype_firstToken_iff hfind]
    by_cases hdoctype : t.isDoctype = true
    · simp [hdoctype]
    · rw [if_neg hdoctype]
      refine ⟨by simp [hmore, hdoctype], fun _ => ⟨t, _, rfl, rfl, rfl, rfl, rfl, rfl, rfl⟩⟩

/-- The first token of `<!Doctype><p>` behind a line feed and a space is a declaration, but no space
follows its word. -/
theorem lint_bare_doctype :
    let document := "\n <!Doctype><p>".toList
    let rules := RuleSet.off.set "doctype-first" true
    let diagnostics := (builtin.lint rules document).diagnostics
    (∀ rule ∈ builtin.rules,
        (settleRules rules document).isEnabled rule.id = true ↔ rule.id = Rule.doctypeFirst.id)
      ∧ ¬ DeclaresDoctype (Text.trimStart document)
      ∧ ∃ d, diagnostics = [d] ∧ d.raw = "<!Doctype>".toList ∧ d.location = ⟨2, 2⟩ := by
  intro document rules diagnostics
  have hsole := builtin.isEnabled_iff_of_off_set document "doctype-first" rfl
  have hknown : Rule.doctypeFirst ∈ builtin.rules := by
    have hrules : builtin.rules = builtinRules := rfl
    simp [hrules, builtinRules]
  rcases lint_doctypeFirst builtin rules document hknown hsole with ⟨hiff, hone⟩
  have hreported : diagnostics ≠ [] := by decide +kernel
  rcases hone hreported with ⟨t, d, hfind, hd, hraw, hlocation, -⟩
  have hfirst : (scan document).find? (!·.isBlankText)
      = some ⟨.declaration "Doctype".toList, "<!Doctype>".toList, ⟨2, 12⟩⟩ := by decide +kernel
  obtain rfl := Option.some.inj (hfirst.symm.trans hfind)
  refine ⟨hsole, fun hdeclares => hreported (hiff.2 (.inr hdeclares)), d, hd, hraw, ?_⟩
  rw [hlocation]
  decide +kernel

end Registry

end HtmlLint
