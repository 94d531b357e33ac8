import Std.Data.TreeMap

/-!
# Rule sets

A rule set says which rules run. Rules that it names are on or off as named; all others follow the
fallback. Applying one set on top of another takes over its named rules only.
-/

namespace HtmlLint

/-- Which rules run. -/
structure RuleSet where
  fallback : Bool
  named : Std.TreeMap String Bool

namespace RuleSet

/-- No rule runs. -/
def off : RuleSet :=
  ⟨false, ∅⟩

/-- Every rule runs. -/
def all : RuleSet :=
  ⟨true, ∅⟩

def isEnabled (rules : RuleSet) (id : String) : Bool :=
  rules.named[id]?.getD rules.fallback

/-- Switches a rule on or off. -/
def set (rules : RuleSet) (id : String) (enabled : Bool) : RuleSet :=
  { rules with named := rules.named.insert id enabled }

/-- Switches several rules, one after the other. -/
def setAll (rules : RuleSet) (entries : List (String × Bool)) : RuleSet :=
  entries.foldl (fun rules (id, enabled) => rules.set id enabled) rules

/-- The named rules, sorted by id. -/
def entries (rules : RuleSet) : List (String × Bool) :=
  rules.named.toList

/-- Applies the named rules of `top` on top of `rules`. -/
def apply (rules top : RuleSet) : RuleSet :=
  rules.setAll top.entries

/-- Both sets have the same fallback and name the same rules in the same way. -/
def same (a b : RuleSet) : Bool :=
  a.fallback == b.fallback && a.entries == b.entries

@[simp]
theorem isEnabled_off (id : String) : off.isEnabled id = false := by
  simp [isEnabled, off]

@[simp]
theorem isEnabled_all (id : String) : all.isEnabled id = true := by
  simp [isEnabled, all]

theorem isEnabled_set (rules : RuleSet) (id other : String) (enabled : Bool) :
    (rules.set id enabled).isEnabled other =
      if id = other then enabled else rules.isEnabled other := by
  by_cases same : id = other
  · simp [isEnabled, set, same]
  · simp [isEnabled, set, Std.TreeMap.getElem?_insert, same]

end RuleSet

end HtmlLint
