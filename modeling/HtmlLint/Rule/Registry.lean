import HtmlLint.Rule.Attributes
import HtmlLint.Rule.Doctype
import HtmlLint.Rule.Indentation
import HtmlLint.Rule.Pairing

/-!
# Registries

A registry holds rules in the order in which their ids were first registered, one for each id.
Registering a rule under a known id puts it in the place of the earlier one.
-/

namespace HtmlLint

/-- Puts a rule in the place of the one with its id, or at the end. -/
def Rule.putIn (rule : Rule) : List Rule → List Rule
  | [] => [rule]
  | other :: rules => if other.id = rule.id then rule :: rules else other :: rule.putIn rules

theorem Rule.mem_ids_putIn {rule : Rule} {rules : List Rule} {id : String} :
    id ∈ (rule.putIn rules).map (·.id) ↔ id = rule.id ∨ id ∈ rules.map (·.id) := by
  induction rules with
  | nil => simp [Rule.putIn]
  | cons other rules ih =>
    by_cases same : other.id = rule.id
    · simp [Rule.putIn, same]
    · rw [Rule.putIn, if_neg same, List.map_cons, List.mem_cons, ih, List.map_cons, List.mem_cons]
      exact or_left_comm

theorem Rule.nodup_ids_putIn {rule : Rule} {rules : List Rule}
    (distinct : (rules.map (·.id)).Nodup) : ((rule.putIn rules).map (·.id)).Nodup := by
  induction rules with
  | nil => simp [Rule.putIn]
  | cons other rules ih =>
    have parts := List.nodup_cons.1 distinct
    by_cases same : other.id = rule.id
    · rw [Rule.putIn, if_pos same, List.map_cons, ← same]
      exact distinct
    · rw [Rule.putIn, if_neg same, List.map_cons]
      refine List.nodup_cons.2 ⟨?_, ih parts.2⟩
      intro known
      rcases Rule.mem_ids_putIn.1 known with h | h
      · exact same h
      · exact parts.1 h

/-- The rules that can be run, in order of registration. -/
structure Registry where
  rules : List Rule
  /-- There is one rule for each id. -/
  distinct : (rules.map (·.id)).Nodup

namespace Registry

def empty : Registry :=
  ⟨[], List.nodup_nil⟩

/-- Registers a rule. -/
def register (registry : Registry) (rule : Rule) : Registry :=
  ⟨rule.putIn registry.rules, Rule.nodup_ids_putIn registry.distinct⟩

/-- The ids in order of registration. -/
def ids (registry : Registry) : List String :=
  registry.rules.map (·.id)

def size (registry : Registry) : Nat :=
  registry.rules.length

def find? (registry : Registry) (id : String) : Option Rule :=
  registry.rules.find? (·.id == id)

/-- What is to be noted when a rule is registered. -/
def registerNotices (registry : Registry) (rule : Rule) : List Notice :=
  if registry.ids.contains rule.id then [.ruleReplaced rule.id] else []

/-- The ids between brackets, quoted. -/
def summary (registry : Registry) : String :=
  "[" ++ ", ".intercalate (registry.ids.map fun id => Text.quoted id.toList) ++ "]"

/-- The rules that come with the library. -/
def builtinRules : List Rule :=
  [.doctypeFirst, .tagPair, .attrLowercase, .attrDoubleQuotes, .spaceTabMixed]

def builtin : Registry :=
  builtinRules.foldl register empty

end Registry

end HtmlLint
