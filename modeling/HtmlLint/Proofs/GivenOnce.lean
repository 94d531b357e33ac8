import HtmlLint.Warnings
import Mathlib.Data.List.Basic

/-!
# Warnings are given once

A warning is known by its one-line form, `[component] message`. Two different warnings can have the
same one: `[a] b] c` is the message `b] c` of `a` and the message `c` of `a] b`. The later of the
two is then taken for a repetition and never given.

* `Warnings.answers` — what is answered to warnings that come one after the other.
* `RunsInto` — the only way for two warnings to have the same form (`lineOf_eq_iff`).
* `GivenOnce` — each warning is given the first time it comes, and only then.

`given_once_iff_apart` says that this holds exactly if no warning of the sequence runs into another
one, as it is when no component holds `] `.
-/

namespace HtmlLint.Warnings

/-- The one-line form of a warning. -/
def lineOf (warning : String × String) : String :=
  line warning.1 warning.2

/-- The notice of a warning. -/
def notice (warning : String × String) : Notice :=
  .warning warning.1 warning.2

/-! ## Warnings with the same form -/

/-- The component of `b` goes on behind that of `a`, over the start of the message of `a`. -/
def RunsInto (a b : String × String) : Prop :=
  ∃ s, b.1 = a.1 ++ "] " ++ s ∧ a.2 = s ++ "] " ++ b.2

theorem lineOf_eq_of_runsInto {a b : String × String} (h : RunsInto a b) : lineOf a = lineOf b := by
  rcases h with ⟨s, hcomponent, hmessage⟩
  simp only [lineOf, line, hcomponent, hmessage, String.append_assoc]

/-- A warning that runs into another one has a shorter component. -/
theorem RunsInto.ne {a b : String × String} (h : RunsInto a b) : a ≠ b := by
  rintro rfl
  rcases h with ⟨s, hcomponent, -⟩
  have hlength := congrArg (fun c : String => c.toList.length) hcomponent
  simp only [String.toList_append, List.length_append] at hlength
  have hbracket : "] ".toList.length = 2 := rfl
  omega

/-- The longer component starts with the shorter one. What it has more is nothing, or starts with
the bracket and the space that follow the shorter one. -/
theorem exists_of_bracket_eq {more m n : List Char}
    (h : ']' :: ' ' :: m = more ++ ']' :: ' ' :: n) :
    more = [] ∧ m = n ∨ ∃ s, more = ']' :: ' ' :: s ∧ m = s ++ ']' :: ' ' :: n := by
  rcases more with _ | ⟨c, _ | ⟨d, s⟩⟩
  · exact .inl ⟨rfl, by simpa using h⟩
  · simp at h
  · obtain ⟨rfl, rfl, hm⟩ : ']' = c ∧ ' ' = d ∧ m = s ++ ']' :: ' ' :: n := by simpa using h
    exact .inr ⟨s, rfl, hm⟩

theorem eq_or_runsInto {a b : String × String} {more : List Char}
    (hcomponent : b.1.toList = a.1.toList ++ more)
    (h : ']' :: ' ' :: a.2.toList = more ++ ']' :: ' ' :: b.2.toList) : a = b ∨ RunsInto a b := by
  rcases exists_of_bracket_eq h with ⟨rfl, hmessage⟩ | ⟨s, rfl, hmessage⟩
  · refine .inl (Prod.ext (String.toList_inj.1 ?_) (String.toList_inj.1 hmessage))
    simpa using hcomponent.symm
  · refine .inr ⟨String.ofList s, String.toList_inj.1 ?_, String.toList_inj.1 ?_⟩
    · simpa [String.toList_append] using hcomponent
    · simpa [String.toList_append] using hmessage

theorem lineOf_eq_iff {a b : String × String} :
    lineOf a = lineOf b ↔ a = b ∨ RunsInto a b ∨ RunsInto b a := by
  constructor
  · intro h
    have hchars : a.1.toList ++ ']' :: ' ' :: a.2.toList
        = b.1.toList ++ ']' :: ' ' :: b.2.toList := by
      simpa [lineOf, line, String.toList_append] using congrArg String.toList h
    -- one of the components is the start of the other
    rcases List.append_eq_append_iff.1 hchars with ⟨more, hb, hrest⟩ | ⟨more, ha, hrest⟩
    · rcases eq_or_runsInto hb hrest with heq | hruns
      · exact .inl heq
      · exact .inr (.inl hruns)
    · rcases eq_or_runsInto ha hrest with heq | hruns
      · exact .inl heq.symm
      · exact .inr (.inr hruns)
  · rintro (rfl | hruns | hruns)
    · rfl
    · exact lineOf_eq_of_runsInto hruns
    · exact (lineOf_eq_of_runsInto hruns).symm

/-! ## One warning after the other -/

theorem announce_known {before : Warnings} {warning : String × String}
    (h : lineOf warning ∈ before.given) :
    before.announce warning.1 warning.2 = (before, none) :=
  if_pos (List.contains_iff_mem.2 h)

theorem announce_new {before : Warnings} {warning : String × String}
    (h : lineOf warning ∉ before.given) :
    before.announce warning.1 warning.2
      = (⟨lineOf warning :: before.given⟩, some (notice warning)) :=
  if_neg (mt List.contains_iff_mem.1 h)

/-- The answers to warnings that come one after the other: the notice that is given, if one is. -/
def answers (before : Warnings) : List (String × String) → List (Option Notice)
  | [] => []
  | warning :: later =>
    let (after, given) := before.announce warning.1 warning.2
    given :: after.answers later

/-- The known forms are those of the warnings that came so far. -/
def Knows (before : Warnings) (earlier : List (String × String)) : Prop :=
  ∀ form, form ∈ before.given ↔ form ∈ earlier.map lineOf

theorem empty_knows : empty.Knows [] := fun _ => Iff.rfl

namespace Knows

variable {before : Warnings} {earlier : List (String × String)}

theorem announce (h : before.Knows earlier) (warning : String × String) :
    (before.announce warning.1 warning.2).1.Knows (earlier ++ [warning]) := by
  intro form
  rw [List.map_append, List.mem_append, List.map_singleton, List.mem_singleton, ← h form]
  by_cases hknown : lineOf warning ∈ before.given
  · rw [announce_known hknown]
    refine ⟨.inl, ?_⟩
    rintro (hmem | rfl)
    · exact hmem
    · exact hknown
  · rw [announce_new hknown]
    exact List.mem_cons.trans or_comm

theorem given_announce (h : before.Knows earlier) (warning : String × String) :
    (before.announce warning.1 warning.2).2
      = if lineOf warning ∈ earlier.map lineOf then none else some (notice warning) := by
  by_cases hknown : lineOf warning ∈ before.given
  · rw [announce_known hknown, if_pos ((h _).1 hknown)]
  · rw [announce_new hknown, if_neg (mt (h _).2 hknown)]

/-- A warning is answered by what came before it: it is given unless its form is known. -/
theorem getElem?_answers (h : before.Knows earlier) (between : List (String × String))
    (warning : String × String) (later : List (String × String)) :
    (before.answers (between ++ warning :: later))[between.length]?
      = some (if lineOf warning ∈ (earlier ++ between).map lineOf then none
        else some (notice warning)) := by
  induction between generalizing before earlier with
  | nil =>
    rw [List.append_nil]
    exact congrArg some (h.given_announce warning)
  | cons first between ih =>
    -- after `first` one more warning is known
    have hlater := ih (h.announce first)
    rw [List.append_assoc] at hlater
    exact hlater

end Knows

/-! ## What the answers should be -/

/-- Each warning is given if it did not come before, and is not given again. -/
def GivenOnce (warnings : List (String × String)) : Prop :=
  ∀ earlier warning later, warnings = earlier ++ warning :: later →
    (empty.answers warnings)[earlier.length]?
      = some (if warning ∈ earlier then none else some (notice warning))

theorem getElem?_answers_empty (earlier : List (String × String)) (warning : String × String)
    (later : List (String × String)) :
    (empty.answers (earlier ++ warning :: later))[earlier.length]?
      = some (if lineOf warning ∈ earlier.map lineOf then none else some (notice warning)) :=
  empty_knows.getElem?_answers earlier warning later

theorem givenOnce_of_injective {warnings : List (String × String)}
    (h : ∀ a ∈ warnings, ∀ b ∈ warnings, lineOf a = lineOf b → a = b) : GivenOnce warnings := by
  rintro earlier warning later rfl
  have hsame : lineOf warning ∈ earlier.map lineOf ↔ warning ∈ earlier := by
    refine ⟨?_, List.mem_map_of_mem⟩
    intro hmem
    rcases List.mem_map.1 hmem with ⟨other, hother, hform⟩
    exact h other (by simp [hother]) warning (by simp) hform ▸ hother
  rw [getElem?_answers_empty]
  simp only [hsame]

/-- Of two warnings with the same form, the one that comes first hides the other. -/
theorem not_givenOnce_of_first {warnings earlier later : List (String × String)}
    {a b : String × String} (hform : lineOf a = lineOf b)
    (hsplit : warnings = earlier ++ b :: later) (ha : a ∈ earlier) (hb : b ∉ earlier) :
    ¬ GivenOnce warnings := by
  intro hgiven
  have hanswer := hgiven earlier b later hsplit
  have hknown : lineOf b ∈ earlier.map lineOf := hform ▸ List.mem_map_of_mem ha
  rw [hsplit, getElem?_answers_empty, if_pos hknown, if_neg hb] at hanswer
  cases hanswer

/-- Of two things in a list, one comes up before the first place of the other. -/
theorem exists_first_place {α : Type} {list : List α} {a b : α} (ha : a ∈ list) (hb : b ∈ list)
    (hne : a ≠ b) :
    (∃ earlier later, list = earlier ++ b :: later ∧ a ∈ earlier ∧ b ∉ earlier)
      ∨ ∃ earlier later, list = earlier ++ a :: later ∧ b ∈ earlier ∧ a ∉ earlier := by
  rcases List.eq_append_cons_of_mem hb with ⟨earlier, later, hsplit, hfirst⟩
  by_cases hmem : a ∈ earlier
  · exact .inl ⟨earlier, later, hsplit, hmem, hfirst⟩
  · -- all of `a` stands behind `b`
    have hbehind : a ∈ later := by simpa [hsplit, hmem, hne] using ha
    rcases List.eq_append_cons_of_mem hbehind with ⟨between, rest, rfl, hnone⟩
    exact .inr ⟨earlier ++ b :: between, rest, by simpa using hsplit, by simp,
      by simp [hmem, hne, hnone]⟩

theorem givenOnce_iff {warnings : List (String × String)} :
    GivenOnce warnings ↔ ∀ a ∈ warnings, ∀ b ∈ warnings, ¬ RunsInto a b := by
  constructor
  · intro hgiven a ha b hb hruns
    have hform := lineOf_eq_of_runsInto hruns
    rcases exists_first_place ha hb hruns.ne with
      ⟨earlier, later, hsplit, hmem, hfirst⟩ | ⟨earlier, later, hsplit, hmem, hfirst⟩
    · exact not_givenOnce_of_first hform hsplit hmem hfirst hgiven
    · exact not_givenOnce_of_first hform.symm hsplit hmem hfirst hgiven
  · intro hapart
    apply givenOnce_of_injective
    intro a ha b hb hform
    rcases lineOf_eq_iff.1 hform with heq | hruns | hruns
    · exact heq
    · exact absurd hruns (hapart a ha b hb)
    · exact absurd hruns (hapart b hb a ha)

theorem RunsInto.bracket_in_component {a b : String × String} (h : RunsInto a b) :
    "] ".toList <:+: b.1.toList := by
  rcases h with ⟨s, hcomponent, -⟩
  exact ⟨a.1.toList, s.toList, by simp [hcomponent, String.toList_append]⟩

/-- Sequences in which each warning is given once. The answers depend on the forms: a warning is
given if no earlier one has its form. So each warning is given the first time it comes, and only
then, exactly if no warning of the sequence runs into another one, and this is so if no component
holds a bracket with a space behind it. -/
theorem given_once_iff_apart (warnings : List (String × String)) :
    (∀ earlier warning later, warnings = earlier ++ warning :: later →
      (empty.answers warnings)[earlier.length]?
        = some (if lineOf warning ∈ earlier.map lineOf then none else some (notice warning)))
    ∧ (GivenOnce warnings ↔ ∀ a ∈ warnings, ∀ b ∈ warnings, ¬ RunsInto a b)
    ∧ ((∀ warning ∈ warnings, ¬ "] ".toList <:+: warning.1.toList) → GivenOnce warnings) := by
  refine ⟨?_, givenOnce_iff, ?_⟩
  · rintro earlier warning later rfl
    exact getElem?_answers_empty earlier warning later
  · intro hplain
    refine givenOnce_iff.2 ?_
    intro a _ b hb hruns
    exact hplain b hb hruns.bracket_in_component

/-- A message is given once for each of two components. -/
theorem message_given_once :
    GivenOnce [("Test", "m"), ("Test", "m"), ("Other", "m")]
      ∧ empty.answers [("Test", "m"), ("Test", "m"), ("Other", "m")]
        = [some (.warning "Test" "m"), none, some (.warning "Other" "m")] := by
  refine ⟨(given_once_iff_apart _).2.2 (by decide), by decide⟩

/-- The second warning has not come before, and is not given. -/
theorem bracketed_component_hidden :
    empty.answers [("a", "b] c"), ("a] b", "c")] = [some (.warning "a" "b] c"), none]
      ∧ ¬ GivenOnce [("a", "b] c"), ("a] b", "c")] := by
  have hanswers : empty.answers [("a", "b] c"), ("a] b", "c")]
      = [some (.warning "a" "b] c"), none] := by decide
  refine ⟨hanswers, ?_⟩
  intro hgiven
  have hsecond := hgiven [("a", "b] c")] ("a] b", "c") [] rfl
  rw [hanswers, if_neg (by decide)] at hsecond
  cases hsecond

end HtmlLint.Warnings
