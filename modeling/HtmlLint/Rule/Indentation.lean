import HtmlLint.Rule.Basic

/-!
# Spaces and tabs are not mixed

A line of text is indented by spaces or by tabs. It is mixed when it starts with one or more of the
one kind and then has one of the other. A text is looked at from its own start and after each of
its line feeds.
-/

namespace HtmlLint.Rule

/-- The text starts with spaces and then a tab, or with tabs and then a space. -/
def startsMixed : List Char → Bool
  | ' ' :: s => (s.dropWhile (· == ' ')).head? == some '\t'
  | '\t' :: s => (s.dropWhile (· == '\t')).head? == some ' '
  | _ => false

theorem startsMixed_of_ne {c : Char} (hspace : c ≠ ' ') (htab : c ≠ '\t') (s : List Char) :
    startsMixed (c :: s) = false := by
  unfold startsMixed
  split
  · next h => exact absurd (List.cons.inj h).1 hspace
  · next h => exact absurd (List.cons.inj h).1 htab
  · rfl

/-- The offsets at which mixed lines of a text start. -/
def mixedLines (text : List Char) : List Nat :=
  (if startsMixed text then [0] else []) ++ go 0 [] text
where
  /-- Looks after every line feed; carries the offset and the offsets found, latest first. -/
  go (offset : Nat) (found : List Nat) : List Char → List Nat
    | [] => found.reverse
    | c :: s =>
      let next := offset + c.utf8Size
      go next (if c == '\n' && startsMixed s then next :: found else found) s

/-- The pieces of a text that end where a mixed line starts, the text passed so far included. -/
def mixedLeads (passed : List Char) : List Char → List (List Char)
  | [] => []
  | c :: s =>
    (if c == '\n' && startsMixed s then [passed ++ [c]] else []) ++ mixedLeads (passed ++ [c]) s

theorem mixedLines_go (passed s : List Char) (found : List Nat) :
    mixedLines.go (Text.byteLength passed) found s
      = found.reverse ++ (mixedLeads passed s).map Text.byteLength := by
  induction s generalizing passed found with
  | nil => simp [mixedLines.go, mixedLeads]
  | cons c s ih =>
    have hnext : Text.byteLength passed + c.utf8Size = Text.byteLength (passed ++ [c]) := by simp
    simp only [mixedLines.go, mixedLeads, hnext, ih]
    split <;> simp

/-- The mixed lines of a text start after certain pieces of it. -/
theorem mixedLines_eq (text : List Char) :
    mixedLines text
      = ((if startsMixed text then [[]] else []) ++ mixedLeads [] text).map Text.byteLength := by
  have hgo := mixedLines_go [] text []
  rw [List.reverse_nil, List.nil_append] at hgo
  rw [mixedLines, List.map_append, ← hgo]
  congr 1
  split <;> rfl

theorem mem_mixedLeads {passed s lead : List Char} :
    lead ∈ mixedLeads passed s ↔
      ∃ a b, s = a ++ '\n' :: b ∧ startsMixed b = true ∧ lead = passed ++ a ++ ['\n'] := by
  induction s generalizing passed with
  | nil => simp [mixedLeads]
  | cons c s ih =>
    rw [mixedLeads, List.mem_append, ih]
    constructor
    · rintro (hhere | ⟨a, b, rfl, hmixed, rfl⟩)
      · split at hhere
        · next hfeed =>
          simp only [Bool.and_eq_true, beq_iff_eq] at hfeed
          rcases hfeed with ⟨rfl, hmixed⟩
          exact ⟨[], s, rfl, hmixed, by simpa using hhere⟩
        · cases hhere
      · exact ⟨c :: a, b, rfl, hmixed, by simp⟩
    · rintro ⟨a, b, hsplit, hmixed, rfl⟩
      cases a with
      | nil =>
        rcases List.cons.inj hsplit with ⟨rfl, rfl⟩
        exact .inl (by simp [hmixed])
      | cons d a =>
        rcases List.cons.inj hsplit with ⟨rfl, rfl⟩
        exact .inr ⟨a, b, rfl, hmixed, by simp⟩

def mixedMessage : String :=
  "There were spaces and tabs used together in front of a line."

def spaceTabMixed : Rule :=
  .stateless "space-tab-mixed-disabled"
    "Spaces and tabs cannot be used together in front of a line."
    [(.kind .text, fun e =>
      (mixedLines e.raw).map fun offset =>
        ⟨.warning, mixedMessage, ⟨(e.locate offset).line, 1⟩, e.raw⟩)]

end HtmlLint.Rule
