import HtmlLint.Proofs.Isolation
import HtmlLint.Proofs.Refusals
import Mathlib.Data.Finset.Card

/-!
# Registries and what was registered

A registry is made by registering rules one after the other, and an id may come up again. What is
left of such a history are three things: the ids, each once, in the order in which they first came
up; for each id the rule that was registered last; and nothing of the rules that were replaced.

* `latest?` — the rule that was registered last under an id.
* `firstPlace` — where in a history an id first came up.
* `Registry.Reflects` — what registering keeps true of a registry and its history. A step is
  `Reflects.register`, a whole history `Reflects.foldl_register`.

Linting asks the registry for its rules in order, so it initialises each id once
(`Registry.Initialises`).
-/

namespace HtmlLint

/-- The rule that was registered last under an id. -/
def latest? (history : List Rule) (id : String) : Option Rule :=
  history.reverse.find? (·.id == id)

/-- Where an id was first registered. -/
def firstPlace (history : List Rule) (id : String) : Nat :=
  (history.map (·.id)).idxOf id

/-! ## One registration -/

theorem Rule.find?_putIn (rule : Rule) (rules : List Rule) (id : String) :
    (rule.putIn rules).find? (·.id == id)
      = if rule.id = id then some rule else rules.find? (·.id == id) := by
  induction rules with
  | nil => by_cases hid : rule.id = id <;> simp [putIn, hid]
  | cons other rules ih =>
    by_cases hsame : other.id = rule.id
    · by_cases hid : rule.id = id <;> simp [putIn, hsame, hid]
    · rw [putIn, if_neg hsame]
      by_cases hother : other.id = id
      · -- the rule that is asked for stands here, so it is not the one that is registered
        have hid : rule.id ≠ id := fun h => hsame (hother.trans h.symm)
        simp [hother, hid]
      · simp [hother, ih]

theorem Rule.ids_putIn (rule : Rule) (rules : List Rule) :
    (rule.putIn rules).map (·.id)
      = if rule.id ∈ rules.map (·.id) then rules.map (·.id)
        else rules.map (·.id) ++ [rule.id] := by
  induction rules with
  | nil => simp [putIn]
  | cons other rules ih =>
    by_cases hsame : other.id = rule.id
    · simp [putIn, hsame]
    · rw [putIn, if_neg hsame, List.map_cons, ih, List.map_cons]
      have hmem : rule.id ∈ other.id :: rules.map (·.id) ↔ rule.id ∈ rules.map (·.id) := by
        simp [Ne.symm hsame]
      by_cases hknown : rule.id ∈ rules.map (·.id)
      · rw [if_pos hknown, if_pos (hmem.2 hknown)]
      · rw [if_neg hknown, if_neg (mt hmem.1 hknown), List.cons_append]

theorem latest?_append (history : List Rule) (rule : Rule) (id : String) :
    latest? (history ++ [rule]) id = if rule.id = id then some rule else latest? history id := by
  by_cases hid : rule.id = id <;> simp [latest?, hid]

theorem latest?_eq_none_iff {history : List Rule} {id : String} :
    latest? history id = none ↔ id ∉ history.map (·.id) := by
  simp [latest?]

/-- A later registration does not change where an id first came up. -/
theorem firstPlace_append {history : List Rule} {id : String} (h : id ∈ history.map (·.id))
    (rule : Rule) : firstPlace (history ++ [rule]) id = firstPlace history id := by
  rw [firstPlace, List.map_append, List.idxOf_append_of_mem h, firstPlace]

theorem firstPlace_new {history : List Rule} {rule : Rule} (h : rule.id ∉ history.map (·.id)) :
    firstPlace (history ++ [rule]) rule.id = history.length := by
  simp [firstPlace, List.idxOf_append_of_notMem h]

theorem firstPlace_lt {history : List Rule} {id : String} (h : id ∈ history.map (·.id)) :
    firstPlace history id < history.length := by
  simpa [firstPlace] using List.idxOf_lt_length_of_mem h

namespace Registry

/-! ## Histories -/

/-- The registry is what a history of registrations left. -/
structure Reflects (registry : Registry) (history : List Rule) : Prop where
  /-- Its ids are those that ever came up. -/
  mem_ids : ∀ id, id ∈ registry.ids ↔ id ∈ history.map (·.id)
  /-- They are in the order in which they first came up. -/
  ordered : registry.ids.Pairwise fun a b => firstPlace history a < firstPlace history b
  /-- Under each id stands the rule that was registered last. -/
  find : ∀ id, registry.find? id = latest? history id

theorem empty_reflects : empty.Reflects [] :=
  ⟨fun _ => Iff.rfl, List.Pairwise.nil, fun _ => rfl⟩

variable {registry : Registry} {history : List Rule}

/-- A known id keeps its place, and a new one comes last. -/
theorem ids_register (registry : Registry) (rule : Rule) :
    (registry.register rule).ids
      = if rule.id ∈ registry.ids then registry.ids else registry.ids ++ [rule.id] :=
  rule.ids_putIn registry.rules

theorem find?_register (registry : Registry) (rule : Rule) (id : String) :
    (registry.register rule).find? id = if rule.id = id then some rule else registry.find? id :=
  rule.find?_putIn registry.rules id

theorem Reflects.register (h : registry.Reflects history) (rule : Rule) :
    (registry.register rule).Reflects (history ++ [rule]) := by
  have hkept : registry.ids.Pairwise fun a b =>
      firstPlace (history ++ [rule]) a < firstPlace (history ++ [rule]) b := by
    refine h.ordered.imp_of_mem ?_
    intro a b ha hb hlt
    rw [firstPlace_append ((h.mem_ids a).1 ha), firstPlace_append ((h.mem_ids b).1 hb)]
    exact hlt
  have hfind : ∀ id, (registry.register rule).find? id = latest? (history ++ [rule]) id := by
    intro id
    rw [find?_register, latest?_append, h.find]
  by_cases hknown : rule.id ∈ registry.ids
  · -- a replacement leaves the ids as they are
    have hids : (registry.register rule).ids = registry.ids := by
      rw [ids_register, if_pos hknown]
    refine ⟨?_, ?_, hfind⟩
    · intro id
      rw [hids, h.mem_ids, List.map_append, List.mem_append]
      refine ⟨Or.inl, ?_⟩
      rintro (hmem | hmem)
      · exact hmem
      · obtain rfl : id = rule.id := by simpa using hmem
        exact (h.mem_ids rule.id).1 hknown
    · rw [hids]
      exact hkept
  · -- a new id comes up behind all registrations so far
    have hids : (registry.register rule).ids = registry.ids ++ [rule.id] := by
      rw [ids_register, if_neg hknown]
    have hnew : rule.id ∉ history.map (·.id) := mt (h.mem_ids rule.id).2 hknown
    refine ⟨?_, ?_, hfind⟩
    · intro id
      rw [hids, List.map_append, List.mem_append, List.mem_append, h.mem_ids]
      rfl
    · rw [hids, List.pairwise_append]
      refine ⟨hkept, List.pairwise_singleton _ _, ?_⟩
      intro a ha b hb
      obtain rfl : b = rule.id := List.mem_singleton.1 hb
      rw [firstPlace_append ((h.mem_ids a).1 ha), firstPlace_new hnew]
      exact firstPlace_lt ((h.mem_ids a).1 ha)

/-- Registering goes on with the history. -/
theorem Reflects.foldl_register (h : registry.Reflects history) (added : List Rule) :
    (added.foldl Registry.register registry).Reflects (history ++ added) := by
  induction added generalizing registry history with
  | nil => simpa using h
  | cons rule added ih => simpa using ih (h.register rule)

/-! ## What a history determines -/

theorem Reflects.size_eq (h : registry.Reflects history) :
    registry.size = (history.map (·.id)).toFinset.card := by
  have hsame : (history.map (·.id)).toFinset = registry.ids.toFinset := by
    ext id
    rw [List.mem_toFinset, List.mem_toFinset, h.mem_ids]
  have hnodup : registry.ids.Nodup := registry.distinct
  rw [hsame, List.toFinset_card_of_nodup hnodup, ids, List.length_map, size]

/-- The rule that a registry has under the id of one of its rules is that rule. -/
theorem find?_id_of_mem {rule : Rule} (h : rule ∈ registry.rules) :
    registry.find? rule.id = some rule := by
  cases hfind : registry.find? rule.id with
  | none => simpa using List.find?_eq_none.1 hfind rule h
  | some other =>
    have hid : other.id = rule.id := by simpa using List.find?_some hfind
    rw [List.inj_on_of_nodup_map registry.distinct (List.mem_of_find?_eq_some hfind) h hid]

/-- A pass over a document initialises these rules, one after the other. -/
structure Initialises (registry : Registry) (rules : RuleSet) (document : List Char)
    (inits : List Rule) : Prop where
  start : registry.start (settleRules rules document) = inits.foldl Setup.start .empty
  /-- Those that do not refuse go through the document, in this order. -/
  sessions : (registry.start (settleRules rules document)).sessions
    = (inits.filter (·.refusal.isNone)).map Session.start
  /-- The others are reported as failures, in this order. -/
  failures : (registry.lint rules document).failures = inits.filterMap Rule.failure?
  /-- Each one reports what it finds. -/
  reports : ∀ rule ∈ inits, (registry.lint rules document).diagnostics.filter (·.rule = rule.id)
    = rule.diagnostics document
  /-- No other rule reports anything. -/
  no_others : ∀ d ∈ (registry.lint rules document).diagnostics, d.rule ∈ inits.map (·.id)

/-- These are the enabled rules, as the registry lists them. -/
theorem initialises_enabled (registry : Registry) (rules : RuleSet) (document : List Char) :
    registry.Initialises rules document
      (registry.rules.filter ((settleRules rules document).isEnabled ·.id)) := by
  refine ⟨rfl, ?_, registry.lint_failures rules document, ?_, ?_⟩
  · exact (registry.start_holds (settleRules rules document)).sessions
  · intro rule hrule
    rcases List.mem_filter.1 hrule with ⟨hmem, henabled⟩
    exact filter_diagnostics_of_enabled hmem henabled
  · intro d hd
    have hstarted := registry.lint_rule_mem rules document hd
    exact List.map_subset _ (List.filter_subset_self _) hstarted

/-- What a history of registrations leaves in a registry. -/
structure Follows (registry : Registry) (history : List Rule) : Prop
    extends registry.Reflects history where
  /-- No id stands twice. -/
  nodup : registry.ids.Nodup
  /-- There is no rule under an id that never came up. -/
  find_none : ∀ id, registry.find? id = none ↔ ∀ rule ∈ history, rule.id ≠ id
  /-- The size is the number of distinct ids. -/
  size : registry.size = (history.map (·.id)).toFinset.card
  /-- A pass initialises rules one after the other: the latest rule of every enabled id, each id
  once, in the order in which the ids first came up. -/
  initialises : ∀ (rules : RuleSet) (document : List Char), ∃ inits : List Rule,
    registry.Initialises rules document inits
      ∧ (∀ id, id ∈ inits.map (·.id) ↔
        id ∈ history.map (·.id) ∧ (settleRules rules document).isEnabled id = true)
      ∧ (inits.map (·.id)).Nodup
      ∧ (inits.map (·.id)).Pairwise (fun a b => firstPlace history a < firstPlace history b)
      ∧ ∀ rule ∈ inits, latest? history rule.id = some rule

theorem Reflects.follows (h : registry.Reflects history) : registry.Follows history := by
  refine ⟨h, registry.distinct, ?_, h.size_eq, ?_⟩
  · intro id
    rw [h.find, latest?_eq_none_iff]
    simp
  · intro rules document
    have hids : (registry.rules.filter ((settleRules rules document).isEnabled ·.id)).map (·.id)
        = registry.ids.filter (settleRules rules document).isEnabled := by
      rw [ids, List.filter_map]
      rfl
    refine ⟨_, registry.initialises_enabled rules document, ?_, ?_, ?_, ?_⟩
    · intro id
      rw [hids, List.mem_filter, h.mem_ids]
    · rw [hids]
      exact registry.distinct.filter _
    · rw [hids]
      exact h.ordered.filter _
    · intro rule hrule
      rw [← h.find]
      exact find?_id_of_mem (List.mem_of_mem_filter hrule)

/-- Whatever is registered, in a registry that is empty at first or has the rules of the library,
the registry follows the history of registrations, the library's own among them. -/
theorem registrations_followed (added : List Rule) :
    (added.foldl register empty).Follows added
      ∧ (added.foldl register builtin).Follows (builtinRules ++ added) := by
  refine ⟨(empty_reflects.foldl_register added).follows, ?_⟩
  have hbuiltin : builtin.Reflects builtinRules := empty_reflects.foldl_register builtinRules
  exact (hbuiltin.foldl_register added).follows

end Registry

end HtmlLint
