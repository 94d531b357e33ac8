import HtmlLint.Proofs.ReportPlaces
import Mathlib.Data.List.Perm.Subperm

/-!
# Reports on attributes

Two rules look at attributes, each at one attribute at a time, and neither remembers anything. Where
they are the only rules that run, the report can be read off the start tags of the document:
attribute by attribute, first what is wrong with the name, then what is wrong with the value.

* `Registry.lint_diagnostics_of_stateless` — rules without a state answer every call by itself, so a
  report is the answers to its calls, one after the other.
* `Attribute.reports` — what is to be reported about an attribute.
* `Registry.lint_attribute_rules` — the report of the two rules.
-/

namespace HtmlLint

/-! ## Rules without a state -/

theorem Session.answer_of_stateless (session : Session) [Subsingleton session.rule.State]
    (call : Call Handle) : (session.answer call).1 = session := by
  unfold Session.answer Session.react
  split
  · split
    · exact congrArg (Session.mk session.rule) (Subsingleton.elim _ _)
    · rfl
  · rfl

/-- Calls to sessions that stay as they are can be answered one by one. -/
theorem Pass.foldl_answer_of_fixed (lines : List (List Char)) (calls : List (Call Handle))
    {pass : Pass} (h : ∀ session ∈ pass.sessions, ∀ call, (session.answer call).1 = session) :
    (calls.foldl (Pass.answer lines) pass).diagnostics.toList
      = pass.diagnostics.toList ++ calls.flatMap fun call =>
          (pass.sessions.flatMap fun session => (session.answer call).2).map
            (·.diagnose lines call.label.rule) := by
  induction calls generalizing pass with
  | nil => simp
  | cons call calls ih =>
    -- the sessions stay, so the later calls find them as they were
    have hsessions : (pass.answer lines call).sessions = pass.sessions := by
      simp only [Pass.answer, List.map_map]
      refine (List.map_congr_left ?_).trans (List.map_id _)
      intro session hsession
      exact h session hsession call
    rw [List.foldl_cons, ih (by rwa [hsessions]), hsessions]
    simp [Pass.answer, List.flatMap_map]

namespace Registry

/-- What the sessions of started rules find when a listener is called. -/
def foundBy (started : List Rule) (label : Handle) (e : Event) : List Finding :=
  (started.map Session.start).flatMap fun session => (session.answer ⟨label, e⟩).2

/-- Where no rule that runs has a state, the report is what the listeners find, call by call. -/
theorem lint_diagnostics_of_stateless (registry : Registry) (rules : RuleSet)
    (document : List Char)
    (h : ∀ rule ∈ registry.started (settleRules rules document), Subsingleton rule.State) :
    (registry.lint rules document).diagnostics
      = (events document).flatMap fun e =>
          ((registry.start (settleRules rules document)).subscriptions.called e).flatMap
            fun label => (foundBy (registry.started (settleRules rules document)) label e).map
              (·.diagnose (sourceLines document) label.rule) := by
  have hsessions := (registry.start_holds (settleRules rules document)).sessions
  have hfixed : ∀ session ∈ (registry.start (settleRules rules document)).sessions,
      ∀ call, (session.answer call).1 = session := by
    intro session hsession call
    rw [hsessions] at hsession
    rcases List.mem_map.1 hsession with ⟨rule, hrule, rfl⟩
    have hstateless : Subsingleton (Session.start rule).rule.State := h rule hrule
    exact Session.answer_of_stateless _ call
  rw [lint_diagnostics_eq_passOver, passOver, Pass.foldl_answer_of_fixed _ _ hfixed, hsessions]
  simp [List.flatMap_assoc, List.flatMap_map, foundBy]

/-- A call is answered by the rule that it names. -/
theorem foundBy_of_mem {started : List Rule} {rule : Rule} (hmem : rule ∈ started)
    (hdistinct : (started.map (·.id)).Nodup) (place : Nat) (e : Event) :
    foundBy started ⟨rule.id, place⟩ e
      = (Session.answer (.start rule) ⟨⟨rule.id, place⟩, e⟩).2 := by
  rcases Rule.exists_split hmem hdistinct with ⟨before, behind, rfl, hbefore, hbehind⟩
  have hothers : ∀ others : List Rule, (∀ other ∈ others, other.id ≠ rule.id) →
      foundBy others ⟨rule.id, place⟩ e = [] := by
    intro others hne
    simp only [foundBy, List.flatMap_map, List.flatMap_eq_nil_iff]
    intro other hother
    rw [Session.answer_of_ne (hne other hother)]
  have hsplit : foundBy (before ++ rule :: behind) ⟨rule.id, place⟩ e
      = foundBy before ⟨rule.id, place⟩ e
        ++ ((Session.answer (.start rule) ⟨⟨rule.id, place⟩, e⟩).2
          ++ foundBy behind ⟨rule.id, place⟩ e) := by
    simp [foundBy]
  rw [hsplit, hothers before hbefore, hothers behind hbehind, List.nil_append, List.append_nil]

end Registry

/-! ## Rules about attributes -/

/-- For the event of an attribute the two rules are called in turn, for others neither is. -/
theorem Setup.Holds.called_attributeRules {setup : Setup}
    (h : setup.Holds [.attrLowercase, .attrDoubleQuotes]) (e : Event) :
    setup.subscriptions.called e
      = if e.kind = .attr then [⟨"attr-lowercase", 0⟩, ⟨"attr-value-double-quotes", 0⟩]
        else [] := by
  rw [Subscriptions.called_eq, h.pairs]
  rcases e with ⟨detail, raw, span, location, depth⟩
  cases detail <;> rfl

namespace Attribute

/-! ## What is to be reported -/

/-- A character of the name is in upper case. -/
def HasUppercase (item : Attribute) : Prop :=
  ∃ c ∈ item.name, Text.isUppercase c = true

/-- There is a value, and it does not stand between double quotes. -/
def LacksDoubleQuotes (item : Attribute) : Prop :=
  item.quote = .single ∨ item.quote = .unquoted ∧ item.value ≠ []

instance : DecidablePred HasUppercase := fun item =>
  List.decidableBEx (Text.isUppercase · = true) item.name

instance : DecidablePred LacksDoubleQuotes := fun item =>
  inferInstanceAs (Decidable (item.quote = .single ∨ item.quote = .unquoted ∧ item.value ≠ []))

/-- An error about the attribute, at the place where the attribute stands in the document. -/
def report (document : List Char) (item : Attribute) (rule message : String) : Diagnostic :=
  let place := Location.start.after (Text.takeBytes item.span.start document)
  { rule
    severity := .error
    message
    location := place
    raw := item.raw
    evidence := lineAt (sourceLines document) place.line }

/-- What is to be reported about the attribute: first its name, then its value. -/
def reports (document : List Char) (item : Attribute) : List Diagnostic :=
  let name := String.ofList item.name
  (if item.HasUppercase then
      [item.report document "attr-lowercase"
        ("The attribute name of [ " ++ name ++ " ] must be in lowercase.")]
    else [])
  ++ if item.LacksDoubleQuotes then
      [item.report document "attr-value-double-quotes"
        ("The value of attribute [ " ++ name ++ " ] must be in double quotes.")]
    else []

theorem hasUppercase_iff {item : Attribute} :
    Rule.hasUppercaseName item = true ↔ item.HasUppercase := by
  simp [Rule.hasUppercaseName, HasUppercase]

theorem lacksDoubleQuotes_iff {item : Attribute} :
    Rule.lacksDoubleQuotes item = true ↔ item.LacksDoubleQuotes := by
  rcases item with ⟨name, value, quote, raw, span⟩
  cases quote <;> simp [Rule.lacksDoubleQuotes, LacksDoubleQuotes]

theorem eq_report_of_mem_reports {document : List Char} {item : Attribute} {d : Diagnostic}
    (h : d ∈ item.reports document) : ∃ rule message, d = item.report document rule message := by
  rcases List.mem_append.1 h with h | h
  · exact ⟨_, _, List.mem_singleton.1 (List.mem_ite_nil_right.1 h).2⟩
  · exact ⟨_, _, List.mem_singleton.1 (List.mem_ite_nil_right.1 h).2⟩

/-- A report shows the line that it names. -/
theorem exists_line_report (document : List Char) (item : Attribute) (rule message : String) :
    ∃ line, (Text.splitOn '\n' document)[(item.report document rule message).location.line - 1]?
        = some line
      ∧ (item.report document rule message).evidence = withoutReturn line :=
  exists_line_of_le (lineOf_le document item.span.start)

end Attribute

/-! ## Attributes and their events -/

/-- From a cursor on, the attributes come one behind the other. -/
theorem Cursor.pairwise_attributes (here : Cursor) :
    ((here.steps.map (·.token)).flatMap (·.kind.attributes)).Pairwise
        (fun a b => a.span.stop ≤ b.span.start)
      ∧ ∀ item ∈ (here.steps.map (·.token)).flatMap (·.kind.attributes),
          here.offset ≤ item.span.start := by
  induction here using Cursor.induction with
  | finished here hnone =>
    rw [steps_of_none hnone]
    exact ⟨.nil, nofun⟩
  | step here step hsome ih =>
    rcases ih with ⟨hordered, hlater⟩
    rcases next?_span hsome with ⟨hspan, hnext⟩
    have hlaid := next?_laidOut hsome
    rw [hspan] at hnext hlaid
    simp only [Span.ofText] at hnext hlaid
    rw [steps_of_some hsome, List.map_cons, List.flatMap_cons]
    refine ⟨List.pairwise_append.2 ⟨hlaid.pairwise, hordered, ?_⟩, ?_⟩
    · -- what is written in this token ends with it, before the next one starts
      intro a ha b hb
      have ha := (hlaid.inside ha).2
      have hb := hlater b hb
      omega
    · intro item hitem
      rcases List.mem_append.1 hitem with hitem | hitem
      · exact (hlaid.inside hitem).1
      · have hitem := hlater item hitem
        omega

/-- The event is that of the attribute, at the attribute's place in the document. -/
structure Event.Shows (e : Event) (document : List Char) (item : Attribute) : Prop where
  detail : ∃ tag, e.detail = .attr tag item
  raw : e.raw = item.raw
  location : e.location = Location.start.after (Text.takeBytes item.span.start document)

/-- What is collected from the events of attributes alone, attribute by attribute. -/
theorem Walk.flatMap_allEvents {β : Type} (here : Walk) (tokens : List Token)
    {f : Event → List β} {g : Attribute → List β} (hother : ∀ e, e.kind ≠ .attr → f e = [])
    (hattr : ∀ e ∈ here.allEvents tokens, ∀ tag item, e.detail = .attr tag item →
      e.raw = item.raw → e.span = item.span → f e = g item) :
    (here.allEvents tokens).flatMap f = (tokens.flatMap (·.kind.attributes)).flatMap g := by
  induction tokens generalizing here with
  | nil => rfl
  | cons t tokens ih =>
    -- the event of the token itself adds nothing, and each of the others is an attribute's
    rcases (here.reach t.span.start).exists_events_eq t with ⟨e, tag, hevents, -, -, -, hkind, -⟩
    rw [Walk.allEvents_cons, hevents] at hattr ⊢
    have hitems : (t.kind.attributes.map ((here.reach t.span.start).attributeEvent t tag)).flatMap f
        = t.kind.attributes.flatMap g := by
      rw [List.flatMap_map]
      refine List.flatMap_congr ?_
      intro item hitem
      have hmem := List.mem_map_of_mem (f := (here.reach t.span.start).attributeEvent t tag) hitem
      exact hattr _ (by simp [hmem]) tag item rfl rfl rfl
    have hrest := ih (here.after t) fun e he => hattr e (by simp [he])
    rw [List.flatMap_append, List.flatMap_cons, hother e hkind, List.nil_append, hitems, hrest,
      List.flatMap_cons, List.flatMap_append]

theorem flatMap_events {β : Type} (document : List Char) {f : Event → List β}
    {g : Attribute → List β} (hother : ∀ e, e.kind ≠ .attr → f e = [])
    (hattr : ∀ e item, e.Shows document item → f e = g item) :
    (events document).flatMap f = ((scan document).flatMap (·.kind.attributes)).flatMap g := by
  have hshows : ∀ e ∈ (Walk.atStart document).allEvents (scan document), ∀ tag item,
      e.detail = .attr tag item → e.raw = item.raw → e.span = item.span → f e = g item := by
    intro e he tag item hdetail hraw hspan
    have hmem : e ∈ events document := by simp [events_eq, he]
    have hlocation := ((events_grouped document).1.located e hmem).location_eq
    rw [hspan] at hlocation
    exact hattr e item ⟨⟨tag, hdetail⟩, hraw, hlocation⟩
  have htokens := (Walk.atStart document).flatMap_allEvents (scan document) hother hshows
  have hstart : f startEvent = [] := hother startEvent (by decide)
  have hfinish : ∀ here, f (finishEvent document here) = [] := by
    intro here
    exact hother _ (by decide : EventKind.finish ≠ .attr)
  rw [events_eq, List.flatMap_cons, List.flatMap_append, htokens, hstart, List.flatMap_singleton,
    hfinish, List.nil_append, List.append_nil]

/-! ## The report of the two rules -/

namespace Registry

/-- The rules that are started when the two rules about attributes are the only ones switched on. -/
theorem started_attributeRules {registry : Registry} {rules : RuleSet}
    (hknown : [Rule.attrLowercase, Rule.attrDoubleQuotes].Sublist registry.rules)
    (hsole : ∀ rule ∈ registry.rules, rules.isEnabled rule.id = true
      ↔ rule.id = "attr-lowercase" ∨ rule.id = "attr-value-double-quotes") :
    registry.started rules = [.attrLowercase, .attrDoubleQuotes] := by
  have hkept : [Rule.attrLowercase, Rule.attrDoubleQuotes].Sublist (registry.started rules) := by
    have hready : ∀ rule ∈ [Rule.attrLowercase, Rule.attrDoubleQuotes],
        rules.isEnabled rule.id = true ∧ rule.refusal.isNone = true := by
      intro rule hrule
      have hon := hsole rule (hknown.subset hrule)
      simp only [List.mem_cons, List.not_mem_nil, or_false] at hrule
      rcases hrule with rfl | rfl
      · exact ⟨hon.2 (.inl rfl), rfl⟩
      · exact ⟨hon.2 (.inr rfl), rfl⟩
    have hfiltered := (hknown.filter (rules.isEnabled ·.id)).filter (·.refusal.isNone)
    rwa [List.filter_eq_self.2 fun rule hrule => (hready rule hrule).1,
      List.filter_eq_self.2 fun rule hrule => (hready rule hrule).2] at hfiltered
  -- the ids of the started rules are distinct, and there are only two that they can have
  have hids : (registry.started rules).map (·.id)
      ⊆ ["attr-lowercase", "attr-value-double-quotes"] := by
    intro id hid
    rcases List.mem_map.1 hid with ⟨rule, hrule, rfl⟩
    rcases mem_started.1 hrule with ⟨hmem, hon, -⟩
    simpa using (hsole rule hmem).1 hon
  have hlength := ((registry.nodup_ids_started rules).subperm hids).length_le
  rw [List.length_map] at hlength
  exact (hkept.eq_of_length_le hlength).symm

/-- A rule about attributes reports those with its property. -/
theorem foundBy_ofAttribute {started : List Rule} (hdistinct : (started.map (·.id)).Nodup)
    {id description : String} {offends : Attribute → Bool} {message : String → String}
    (hmem : Rule.ofAttribute id description offends message ∈ started)
    {document : List Char} {e : Event} {item : Attribute} (he : e.Shows document item)
    {P : Prop} [Decidable P] (hoffends : offends item = true ↔ P) :
    (foundBy started ⟨id, 0⟩ e).map (·.diagnose (sourceLines document) id)
      = if P then [item.report document id (message (String.ofList item.name))] else [] := by
  rcases he.detail with ⟨tag, hdetail⟩
  have hfound : foundBy started ⟨id, 0⟩ e
      = if offends item then [⟨.error, message (String.ofList item.name), e.location, e.raw⟩]
        else [] := by
    refine (foundBy_of_mem hmem hdistinct 0 e).trans ((congrArg Prod.snd (if_pos rfl)).trans ?_)
    rcases e with ⟨detail, raw, span, location, depth⟩
    obtain rfl : detail = .attr tag item := hdetail
    rfl
  rw [hfound]
  by_cases hP : P
  · simp only [hoffends.2 hP, hP, if_true, List.map_singleton]
    rw [he.location, he.raw]
    rfl
  · have hno : offends item = false := by simpa [hP] using hoffends
    simp [hno, hP]

/-- What the two rules report when an attribute comes up. -/
theorem reports_of_called {setup : Setup} (h : setup.Holds [.attrLowercase, .attrDoubleQuotes])
    {document : List Char} {e : Event} {item : Attribute} (he : e.Shows document item) :
    ((setup.subscriptions.called e).flatMap fun label =>
        (foundBy [.attrLowercase, .attrDoubleQuotes] label e).map
          (·.diagnose (sourceLines document) label.rule))
      = item.reports document := by
  have hdistinct : ([Rule.attrLowercase, .attrDoubleQuotes].map (·.id)).Nodup := by decide
  have hname := foundBy_ofAttribute hdistinct List.mem_cons_self he Attribute.hasUppercase_iff
  have hvalue := foundBy_ofAttribute hdistinct (List.mem_cons_of_mem _ List.mem_cons_self) he
    Attribute.lacksDoubleQuotes_iff
  have hkind : e.kind = .attr := by
    rcases he.detail with ⟨tag, hdetail⟩
    rw [Event.kind, hdetail]
    rfl
  rw [h.called_attributeRules, if_pos hkind, List.flatMap_cons, List.flatMap_singleton, hname,
    hvalue]
  rfl

/-- Where the two rules about attributes are the only ones that run, the report goes through the
attributes of all start tags, which come one behind the other. For each it has an error if the name
has an upper case character, then one if a value does not stand between double quotes, and nothing
else. The errors are at the attributes and show the lines of the document there. -/
theorem lint_attribute_rules (registry : Registry) (rules : RuleSet) (document : List Char)
    (hknown : [Rule.attrLowercase, Rule.attrDoubleQuotes].Sublist registry.rules)
    (hsole : ∀ rule ∈ registry.rules, (settleRules rules document).isEnabled rule.id = true
      ↔ rule.id = "attr-lowercase" ∨ rule.id = "attr-value-double-quotes") :
    (registry.lint rules document).diagnostics
        = ((scan document).flatMap (·.kind.attributes)).flatMap (·.reports document)
      ∧ ((scan document).flatMap (·.kind.attributes)).Pairwise
          (fun a b => a.span.stop ≤ b.span.start)
      ∧ ∀ d ∈ (registry.lint rules document).diagnostics, ∃ line,
          (Text.splitOn '\n' document)[d.location.line - 1]? = some line
            ∧ d.evidence = withoutReturn line := by
  have hholds := registry.start_holds (settleRules rules document)
  have hreport := registry.lint_diagnostics_of_stateless rules document
  rw [started_attributeRules hknown hsole] at hholds hreport
  have hdiagnostics : (registry.lint rules document).diagnostics
      = ((scan document).flatMap (·.kind.attributes)).flatMap (·.reports document) := by
    rw [hreport ?stateless]
    case stateless =>
      intro rule hrule
      simp only [List.mem_cons, List.not_mem_nil, or_false] at hrule
      rcases hrule with rfl | rfl <;> exact inferInstanceAs (Subsingleton Unit)
    refine flatMap_events document ?_ ?_
    · intro e hkind
      rw [hholds.called_attributeRules, if_neg hkind, List.flatMap_nil]
    · intro e item he
      exact reports_of_called hholds he
  refine ⟨hdiagnostics, (Cursor.pairwise_attributes (.atStart document)).1, ?_⟩
  intro d hd
  rw [hdiagnostics] at hd
  rcases List.mem_flatMap.1 hd with ⟨item, -, hitem⟩
  rcases Attribute.eq_report_of_mem_reports hitem with ⟨rule, message, rfl⟩
  exact item.exists_line_report document rule message

/-- The tag in `é<a`, a line feed, `B=1 É='' c d=>` has two attributes in upper case. The value of
the first has no quotes and that of the second single ones. The comment has no attribute. -/
theorem lint_shouting_attributes :
    let document := "é<a\n B=1 É='' c d=><!--<p X=y>-->".toList
    let rules := (RuleSet.off.set "attr-lowercase" true).set "attr-value-double-quotes" true
    ((∀ rule ∈ builtin.rules, (settleRules rules document).isEnabled rule.id = true
        ↔ rule.id = "attr-lowercase" ∨ rule.id = "attr-value-double-quotes")
      ∧ [Rule.attrLowercase, Rule.attrDoubleQuotes].Sublist builtin.rules)
      ∧ (builtin.lint rules document).diagnostics.map (fun d => (d.rule, d.location, d.raw))
        = [("attr-lowercase", ⟨2, 2⟩, "B=1".toList),
          ("attr-value-double-quotes", ⟨2, 2⟩, "B=1".toList),
          ("attr-lowercase", ⟨2, 6⟩, "É=''".toList),
          ("attr-value-double-quotes", ⟨2, 6⟩, "É=''".toList)] := by
  intro document rules
  have hsettled : settleRules rules document = rules := rfl
  have hsole : ∀ rule ∈ builtin.rules, (settleRules rules document).isEnabled rule.id = true
      ↔ rule.id = "attr-lowercase" ∨ rule.id = "attr-value-double-quotes" := by
    intro rule _
    have hoff : RuleSet.off.isEnabled rule.id = false := rfl
    rw [hsettled, RuleSet.isEnabled_set, RuleSet.isEnabled_set, hoff]
    grind
  have hknown : [Rule.attrLowercase, Rule.attrDoubleQuotes].Sublist builtin.rules := by
    have hrules : builtin.rules = builtinRules := rfl
    simp [hrules, builtinRules]
  rw [(lint_attribute_rules builtin rules document hknown hsole).1]
  exact ⟨⟨hsole, hknown⟩, by decide +kernel⟩

end Registry

end HtmlLint
