import HtmlLint.Proofs.RuleRuns

/-!
# A refusal leaves nothing but its failure

A rule refuses to run only after it has subscribed its listeners, and by then they stand between
those of the rules before and after it. A pass depends on the rules that were started and on nothing
else a setup went through (`Setup.Holds.calls_eq`), so taking the refusing rules out of the registry
beforehand changes no call and no diagnostic.

What a refusal does leave is an entry in the report, one for each rule that is switched on and
refuses, in order of registration (`Registry.lint_failures`).
-/

namespace HtmlLint

/-! ## What a pass depends on -/

/-- The numbers of the subscriptions do not show in the calls. -/
theorem Subscriptions.calls_of_pairs_eq {α : Type} {a b : Subscriptions α}
    (h : a.pairs = b.pairs) (source : List Char) : a.calls source = b.calls source := by
  have hcalled : ∀ e, a.called e = b.called e := by
    intro e
    rw [a.called_eq, b.called_eq, h]
  simp only [calls, hcalled]

/-- Two setups with the same started rules make the same calls, however many rules refused on the
way to either of them. -/
theorem Setup.Holds.calls_eq {a b : Setup} {started : List Rule} (ha : a.Holds started)
    (hb : b.Holds started) (document : List Char) :
    a.subscriptions.calls document = b.subscriptions.calls document :=
  Subscriptions.calls_of_pairs_eq (ha.pairs.trans hb.pairs.symm) document

/-- Registries that start the same rules report the same diagnostics. -/
theorem Registry.lint_diagnostics_of_started_eq {a b : Registry} {rules : RuleSet}
    {document : List Char}
    (h : a.started (settleRules rules document) = b.started (settleRules rules document)) :
    (a.lint rules document).diagnostics = (b.lint rules document).diagnostics := by
  have ha := a.start_holds (settleRules rules document)
  have hb := b.start_holds (settleRules rules document)
  rw [← h] at hb
  have hcalls := ha.calls_eq hb document
  have hsessions : (a.start (settleRules rules document)).sessions
      = (b.start (settleRules rules document)).sessions := ha.sessions.trans hb.sessions.symm
  -- a pass is a fold over the calls that starts from the sessions, and both are the same
  simp only [Registry.lint, hcalls, hsessions]

/-! ## Failures -/

/-- The failure of the rule, if it refuses to run. -/
def Rule.failure? (rule : Rule) : Option Failure :=
  rule.refusal.map rule.failure

theorem Setup.start_failures (setup : Setup) (rule : Rule) :
    (setup.start rule).failures = setup.failures ++ rule.failure?.toList := by
  cases hrefusal : rule.refusal with
  | none => simp [Setup.start, Rule.failure?, hrefusal]
  | some reason => simp [Setup.start, Rule.failure?, hrefusal]

theorem Setup.foldl_start_failures (rules : List Rule) (setup : Setup) :
    (rules.foldl Setup.start setup).failures
      = setup.failures ++ rules.filterMap Rule.failure? := by
  induction rules generalizing setup with
  | nil => simp
  | cons rule rules ih =>
    calc
      ((rule :: rules).foldl Setup.start setup).failures
          = (setup.start rule).failures ++ rules.filterMap Rule.failure? := ih (setup.start rule)
      _ = setup.failures ++ (rule.failure?.toList ++ rules.filterMap Rule.failure?) := by
          rw [setup.start_failures, List.append_assoc]
      _ = setup.failures ++ (rule :: rules).filterMap Rule.failure? := by
          cases hfailure : rule.failure? <;> simp [hfailure]

namespace Registry

theorem lint_failures (registry : Registry) (rules : RuleSet) (document : List Char) :
    (registry.lint rules document).failures
      = (registry.rules.filter ((settleRules rules document).isEnabled ·.id)).filterMap
          Rule.failure? :=
  Setup.foldl_start_failures _ .empty

/-! ## Without the refusing rules -/

/-- The registry with every rule that refuses taken out. -/
def withoutRefusing (registry : Registry) : Registry :=
  ⟨registry.rules.filter (·.refusal.isNone),
    registry.distinct.sublist (List.filter_sublist.map Rule.id)⟩

/-- The rules that run are the same: a refusing rule is passed over before or after it is found to
be switched on. -/
theorem started_withoutRefusing (registry : Registry) (rules : RuleSet) :
    registry.withoutRefusing.started rules = registry.started rules := by
  simp only [started, withoutRefusing, List.filter_filter]
  apply List.filter_congr
  intro rule _
  cases rule.refusal.isNone <;> simp

/-- Rules that refuse leave no trace but their failures. The diagnostics are those of the registry
without these rules, and so are the calls made. The calls do not depend on what the listeners do
with them, so they would be the same for listeners that look at the report, or report under the id
of another rule. The failures are those of the refusing rules that are switched on, each with the
rule's id and the wording of its refusal, in order of registration. -/
theorem lint_withoutRefusing (registry : Registry) (rules : RuleSet) (document : List Char) :
    (registry.lint rules document).diagnostics
        = (registry.withoutRefusing.lint rules document).diagnostics
      ∧ (registry.start (settleRules rules document)).subscriptions.calls document
        = (registry.withoutRefusing.start (settleRules rules document)).subscriptions.calls document
      ∧ (registry.lint rules document).failures
        = (registry.rules.filter ((settleRules rules document).isEnabled ·.id)).filterMap
            fun rule => rule.refusal.map fun reason =>
              ⟨rule.id, "rule `" ++ rule.refusalId ++ "` failed to initialise: " ++ reason⟩ := by
  have hstarted := registry.started_withoutRefusing (settleRules rules document)
  refine ⟨lint_diagnostics_of_started_eq hstarted.symm, ?_, registry.lint_failures rules document⟩
  have hreduced := registry.withoutRefusing.start_holds (settleRules rules document)
  rw [hstarted] at hreduced
  exact (registry.start_holds (settleRules rules document)).calls_eq hreduced document

end Registry

end HtmlLint
