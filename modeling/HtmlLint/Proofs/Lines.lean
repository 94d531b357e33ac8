import HtmlLint.Diagnostic
import HtmlLint.Proofs.Locating
import Mathlib.Data.List.Basic

/-!
# The lines of a document

A document is cut into lines at its line feeds. Where a line starts can be said in two ways: by the
lines before it, and by the text before it, which is empty or ends with a line feed. The two agree,
and so do the number of a line and the line that counting locations gives.

* `EndsLine` — what follows the text starts a line.
* `lineOf` — the number of the line that an offset lies in. It grows with the offset, and it grows
  strictly up to an offset at which a line starts.
* `lineStart` — the offset at which a line starts, by the lines before it.
-/

namespace HtmlLint

namespace Text

theorem splitOn_ne_nil (sep : Char) (s : List Char) : splitOn sep s ≠ [] := by
  induction s with
  | nil => simp
  | cons c s ih =>
    by_cases hc : c = sep
    · simp [hc]
    · rw [splitOn_cons_of_ne hc]
      simpa using ih

/-- A separator divides the pieces before it from those after it. -/
theorem splitOn_append (sep : Char) (a b : List Char) :
    splitOn sep (a ++ sep :: b) = splitOn sep a ++ splitOn sep b := by
  induction a with
  | nil => simp
  | cons c a ih =>
    by_cases hc : c = sep
    · simp [hc, ih]
    · rw [List.cons_append, splitOn_cons_of_ne hc, splitOn_cons_of_ne hc, ih]
      rcases List.exists_cons_of_ne_nil (splitOn_ne_nil sep a) with ⟨piece, pieces, hpieces⟩
      simp [hpieces]

theorem length_splitOn (sep : Char) (s : List Char) :
    (splitOn sep s).length = s.count sep + 1 := by
  induction s with
  | nil => rfl
  | cons c s ih =>
    by_cases hc : c = sep
    · simp [hc, ih]
    · rw [splitOn_cons_of_ne hc, List.length_modifyHead, ih, List.count_cons_of_ne hc]

/-- The pieces, with a separator after each, make up the text and a last separator. -/
theorem flatMap_splitOn (sep : Char) (s : List Char) :
    (splitOn sep s).flatMap (· ++ [sep]) = s ++ [sep] := by
  induction s with
  | nil => rfl
  | cons c s ih =>
    by_cases hc : c = sep
    · simp [hc, ih]
    · rcases List.exists_cons_of_ne_nil (splitOn_ne_nil sep s) with ⟨piece, pieces, hpieces⟩
      rw [hpieces] at ih
      rw [splitOn_cons_of_ne hc, hpieces]
      simpa using ih

theorem splitOn_zero (sep : Char) (s : List Char) :
    (splitOn sep s)[0]? = some (s.takeWhile (· != sep)) := by
  induction s with
  | nil => rfl
  | cons c s ih =>
    by_cases hc : c = sep
    · simp [hc]
    · rcases List.exists_cons_of_ne_nil (splitOn_ne_nil sep s) with ⟨piece, pieces, hpieces⟩
      rw [hpieces] at ih
      rw [splitOn_cons_of_ne hc, hpieces]
      simpa [hc] using ih

/-- More bytes take more of the text. -/
theorem takeBytes_isPrefix_takeBytes {p q : Nat} (h : p ≤ q) (s : List Char) :
    takeBytes p s <+: takeBytes q s := by
  induction s generalizing p q with
  | nil => simp [takeBytes]
  | cons c s ih =>
    by_cases hp : c.utf8Size ≤ p
    · have hq : c.utf8Size ≤ q := Nat.le_trans hp h
      have hrest := ih (Nat.sub_le_sub_right h c.utf8Size)
      simpa [takeBytes, hp, hq] using hrest
    · simp [takeBytes, hp]

end Text

/-! ## Numbers of lines -/

theorem Location.after_line (here : Location) (s : List Char) :
    (here.after s).line = here.line + s.count '\n' := by
  induction s generalizing here with
  | nil => rfl
  | cons c s ih =>
    rw [Location.after_cons, ih]
    by_cases hc : c = '\n'
    · simp [Location.next, hc]
      omega
    · simp [Location.next, hc]

/-- The number of the line that an offset lies in, counted from one. -/
def lineOf (document : List Char) (offset : Nat) : Nat :=
  (Location.start.after (Text.takeBytes offset document)).line

theorem lineOf_eq (document : List Char) (offset : Nat) :
    lineOf document offset = (Text.takeBytes offset document).count '\n' + 1 := by
  rw [lineOf, Location.after_line, Nat.add_comm]
  rfl

theorem lineOf_append (lead rest : List Char) :
    lineOf (lead ++ rest) (Text.byteLength lead) = lead.count '\n' + 1 := by
  rw [lineOf_eq, Text.takeBytes_byteLength_append]

theorem lineOf_le_lineOf (document : List Char) {p q : Nat} (h : p ≤ q) :
    lineOf document p ≤ lineOf document q := by
  rw [lineOf_eq, lineOf_eq]
  have hcount := (Text.takeBytes_isPrefix_takeBytes h document).sublist.count_le '\n'
  omega

/-! ## Where lines start -/

/-- The text is empty or ends with a line feed, so what follows it starts a line. -/
def EndsLine (lead : List Char) : Prop :=
  ∀ c ∈ lead.getLast?, c = '\n'

namespace EndsLine

theorem nil : EndsLine [] := by
  intro c hc
  cases hc

theorem concat (a : List Char) : EndsLine (a ++ ['\n']) := by
  intro c hc
  simpa [eq_comm] using hc

theorem eq_nil_or_concat {lead : List Char} (h : EndsLine lead) :
    lead = [] ∨ ∃ a, lead = a ++ ['\n'] := by
  rcases List.eq_nil_or_concat lead with rfl | ⟨a, c, rfl⟩
  · exact .inl rfl
  · obtain rfl : c = '\n' := h c (by simp)
    exact .inr ⟨a, by simp⟩

/-- The end of a text decides, unless it is empty. -/
theorem append_iff {a b : List Char} (hb : b ≠ []) : EndsLine (a ++ b) ↔ EndsLine b := by
  simp only [EndsLine, List.getLast?_append_of_ne_nil a hb]

end EndsLine

/-- A line of the document starts at the offset. -/
def AtLineStart (document : List Char) (offset : Nat) : Prop :=
  EndsLine (Text.takeBytes offset document)

/-- An offset at which a line starts is on a later line than every offset before it. -/
theorem lineOf_lt_lineOf {document : List Char} {p q : Nat}
    (hq : Text.isBoundary document q = true) (hstart : AtLineStart document q) (h : p < q) :
    lineOf document p < lineOf document q := by
  rcases Text.isBoundary_iff.1 hq with ⟨lead, rest, rfl, rfl⟩
  rw [AtLineStart, Text.takeBytes_byteLength_append] at hstart
  rcases hstart.eq_nil_or_concat with rfl | ⟨a, rfl⟩
  · cases h
  · have hprefix := Text.takeBytes_isPrefix_takeBytes (Nat.le_of_lt h) (a ++ ['\n'] ++ rest)
    have hshort := Text.byteLength_takeBytes_le p (a ++ ['\n'] ++ rest)
    rw [Text.takeBytes_byteLength_append] at hprefix
    -- the text before `p` misses the last line feed
    have hbefore : Text.takeBytes p (a ++ ['\n'] ++ rest) <+: a := by
      rcases List.prefix_concat_iff.1 hprefix with hwhole | hbefore
      · rw [hwhole] at hshort
        omega
      · exact hbefore
    have hcount := hbefore.sublist.count_le '\n'
    rw [lineOf_append, lineOf_eq, List.count_append]
    have hfeed : List.count '\n' ['\n'] = 1 := rfl
    omega

/-- The offset at which a line starts, the lines being counted from zero. -/
def lineStart (document : List Char) (n : Nat) : Nat :=
  Text.byteLength (((Text.splitOn '\n' document).take n).flatMap (· ++ ['\n']))

/-- The line that starts after a text which ends a line. -/
theorem EndsLine.line {lead : List Char} (h : EndsLine lead) (rest : List Char) :
    (Text.splitOn '\n' (lead ++ rest))[lead.count '\n']? = some (rest.takeWhile (· != '\n'))
      ∧ lineStart (lead ++ rest) (lead.count '\n') = Text.byteLength lead := by
  rcases h.eq_nil_or_concat with rfl | ⟨a, rfl⟩
  · exact ⟨Text.splitOn_zero '\n' rest, rfl⟩
  · have hsplit : Text.splitOn '\n' (a ++ ['\n'] ++ rest)
        = Text.splitOn '\n' a ++ Text.splitOn '\n' rest := by
      rw [List.append_assoc]
      exact Text.splitOn_append '\n' a rest
    have hnumber : (a ++ ['\n']).count '\n' = (Text.splitOn '\n' a).length := by
      rw [Text.length_splitOn, List.count_append]
      rfl
    rw [lineStart, hsplit, hnumber, List.take_left, Text.flatMap_splitOn,
      List.getElem?_append_right (Nat.le_refl _), Nat.sub_self]
    exact ⟨Text.splitOn_zero '\n' rest, rfl⟩

theorem exists_lead_of_le_count {document : List Char} {n : Nat} (h : n ≤ document.count '\n') :
    ∃ lead rest, document = lead ++ rest ∧ EndsLine lead ∧ lead.count '\n' = n := by
  induction document generalizing n with
  | nil => exact ⟨[], [], rfl, .nil, (Nat.le_zero.1 h).symm⟩
  | cons c s ih =>
    cases n with
    | zero => exact ⟨[], c :: s, rfl, .nil, rfl⟩
    | succ n =>
      by_cases hc : c = '\n'
      · subst hc
        rcases ih (n := n) (by simpa using h) with ⟨lead, rest, rfl, hends, hcount⟩
        refine ⟨'\n' :: lead, rest, rfl, ?_, by simp [hcount]⟩
        rcases hends.eq_nil_or_concat with rfl | ⟨a, rfl⟩
        · exact .concat []
        · exact .concat ('\n' :: a)
      · rw [List.count_cons_of_ne hc] at h
        rcases ih h with ⟨lead, rest, rfl, hends, hcount⟩
        -- the line feeds before line `n + 1` are not in an empty text
        rcases hends.eq_nil_or_concat with rfl | ⟨a, rfl⟩
        · cases hcount
        · exact ⟨c :: (a ++ ['\n']), rest, rfl, .concat (c :: a), by simpa [hc] using hcount⟩

/-- Every line starts after a text that ends a line, and goes on to the next line feed. -/
theorem exists_lead_of_line {document line : List Char} {n : Nat}
    (h : (Text.splitOn '\n' document)[n]? = some line) :
    ∃ lead rest, document = lead ++ rest ∧ EndsLine lead ∧ lead.count '\n' = n
      ∧ lineStart document n = Text.byteLength lead ∧ line = rest.takeWhile (· != '\n') := by
  have hn : n ≤ document.count '\n' := by
    rcases List.getElem?_eq_some_iff.1 h with ⟨hlength, -⟩
    rw [Text.length_splitOn] at hlength
    omega
  rcases exists_lead_of_le_count hn with ⟨lead, rest, rfl, hends, rfl⟩
  rcases hends.line rest with ⟨hline, hstart⟩
  rw [hline] at h
  exact ⟨lead, rest, rfl, hends, rfl, hstart, (Option.some.inj h).symm⟩

end HtmlLint
