import HtmlLint.Proofs.RuleRuns
import Mathlib.Data.List.Nodup

/-!
# Rules do not interfere

All rules of a pass share one sequence of calls and one report. What a rule reports there is what it
reports by itself, `Rule.diagnostics`, which does not mention a registry or a rule set. So switching
other rules on or off changes nothing for a rule that stays switched on, whether those rules run,
refuse, or complain about the same places.
-/

namespace HtmlLint

/-- What a rule that is switched on reports by itself. A rule that refuses reports nothing. -/
def Rule.diagnostics (rule : Rule) (document : List Char) : List Diagnostic :=
  if rule.refusal = none then
    (rule.findings document).map (·.diagnose (sourceLines document) rule.id)
  else []

namespace Registry

variable {registry : Registry} {rule : Rule}

/-- There are no diagnostics under an id that no rule which runs has. -/
theorem filter_diagnostics_eq_nil {rules : RuleSet} {document : List Char} {id : String}
    (h : ∀ other ∈ registry.started (settleRules rules document), other.id ≠ id) :
    (registry.lint rules document).diagnostics.filter (·.rule = id) = [] := by
  rw [List.filter_eq_nil_iff]
  intro d hd hid
  rcases List.mem_map.1 (registry.lint_rule_mem rules document hd) with ⟨other, hother, hsame⟩
  exact h other hother (hsame.trans (of_decide_eq_true hid))

/-- A rule that refuses has no diagnostics under its id. -/
theorem filter_diagnostics_of_refusal (hrule : rule ∈ registry.rules)
    (hrefusal : rule.refusal ≠ none) (rules : RuleSet) (document : List Char) :
    (registry.lint rules document).diagnostics.filter (·.rule = rule.id) = [] := by
  refine filter_diagnostics_eq_nil ?_
  intro other hother hids
  rcases mem_started.1 hother with ⟨hmem, -, hruns⟩
  -- there is one rule for each id, so the rule that ran would be the one that refuses
  have heq : other = rule := List.inj_on_of_nodup_map registry.distinct hmem hrule hids
  exact hrefusal (heq ▸ hruns)

/-- Neither has one that is switched off. -/
theorem filter_diagnostics_of_disabled {rules : RuleSet} {document : List Char} {id : String}
    (hoff : (settleRules rules document).isEnabled id = false) :
    (registry.lint rules document).diagnostics.filter (·.rule = id) = [] := by
  refine filter_diagnostics_eq_nil ?_
  rintro other hother rfl
  rw [(mem_started.1 hother).2.1] at hoff
  cases hoff

/-- In the report of any pass, a rule that is switched on has its own diagnostics. -/
theorem filter_diagnostics_of_enabled (hrule : rule ∈ registry.rules) {rules : RuleSet}
    {document : List Char} (henabled : (settleRules rules document).isEnabled rule.id = true) :
    (registry.lint rules document).diagnostics.filter (·.rule = rule.id)
      = rule.diagnostics document := by
  by_cases hrefusal : rule.refusal = none
  · have hstarted : rule ∈ registry.started (settleRules rules document) :=
      mem_started.2 ⟨hrule, henabled, hrefusal⟩
    rw [registry.filter_lint_diagnostics rules document hstarted, Rule.diagnostics, if_pos hrefusal]
  · rw [filter_diagnostics_of_refusal hrule hrefusal, Rule.diagnostics, if_neg hrefusal]

/-- Two rule sets under which a rule is switched on give it the same diagnostics in the same order,
whatever they do with the other rules. -/
theorem diagnostics_under_any_rules (registry : Registry) (document : List Char)
    (first second : RuleSet) {id : String} (hid : id ∈ registry.ids)
    (hfirst : (settleRules first document).isEnabled id = true)
    (hsecond : (settleRules second document).isEnabled id = true) :
    (registry.lint first document).diagnostics.filter (·.rule = id)
      = (registry.lint second document).diagnostics.filter (·.rule = id) := by
  rcases List.mem_map.1 hid with ⟨rule, hrule, rfl⟩
  calc
    (registry.lint first document).diagnostics.filter (·.rule = rule.id)
        = rule.diagnostics document := filter_diagnostics_of_enabled hrule hfirst
    _ = (registry.lint second document).diagnostics.filter (·.rule = rule.id) :=
      (filter_diagnostics_of_enabled hrule hsecond).symm

/-- A rule that subscribes to the pairing rule's events and then refuses. -/
def stubborn : Rule :=
  { id := "stubborn"
    description := ""
    State := Unit
    initial := ()
    listeners := [⟨.kind .tagStart, fun e _ => ((), [⟨.info, "seen", e.location, e.raw⟩])⟩]
    refusal := some "no" }

/-- `<!-- lintel tag-pair --><p A=b>`, which switches the pairing rule on by itself. -/
def pairedByComment : List Char :=
  "<!-- lintel tag-pair --><p A=b>".toList

/-- The pairing rule reports the same alone and among all rules, one of which refuses. -/
theorem pairing_alone_and_among_all :
    ((builtin.register stubborn).lint .off pairedByComment).diagnostics.length = 1
      ∧ ((builtin.register stubborn).lint .all pairedByComment).diagnostics.length = 4
      ∧ ((builtin.register stubborn).lint .off pairedByComment).diagnostics.filter
          (·.rule = "tag-pair")
        = ((builtin.register stubborn).lint .all pairedByComment).diagnostics.filter
          (·.rule = "tag-pair") := by
  refine ⟨by decide +kernel, by decide +kernel, ?_⟩
  exact diagnostics_under_any_rules _ pairedByComment .off .all (by decide) (by decide +kernel)
    (by decide +kernel)

end Registry

end HtmlLint
