import HtmlLint.Proofs.Tracking

/-!
# Locations in the order of the text

Going on in a text leads to later locations: to a later line, or further on in the same line. Every
character makes a difference, a line feed as well, because the column starts over only on a new
line. So the locations inside of an event are ordered like its offsets, and two offsets share a
location exactly if no character ends between them.

* `Location.le_after`, `Location.lt_after` — some text does not lead back, and leads on unless it is
  empty.
* `Location.after_inj_of_prefix` — of two texts from one place, one the start of the other, the
  location tells which it was.
* `Event.locate_in_order` — the order of the locations in an event.
-/

namespace HtmlLint

/-! ## Locations after texts -/

namespace Location

theorem lt_next (here : Location) (c : Char) :
    here.line < (here.next c).line
      ∨ here.line = (here.next c).line ∧ here.column < (here.next c).column := by
  unfold next
  split <;> simp

/-- More text leads to a later line, or further on in the same line. -/
theorem le_after (here : Location) (s : List Char) :
    here.line < (here.after s).line
      ∨ here.line = (here.after s).line ∧ here.column ≤ (here.after s).column := by
  induction s generalizing here with
  | nil => exact .inr ⟨rfl, Nat.le_refl _⟩
  | cons c s ih =>
    have hnext := here.lt_next c
    have hlater := ih (here.next c)
    rw [after_cons]
    omega

/-- A text that is not empty leads on. -/
theorem lt_after (here : Location) {s : List Char} (h : s ≠ []) :
    here.line < (here.after s).line
      ∨ here.line = (here.after s).line ∧ here.column < (here.after s).column := by
  rcases List.exists_cons_of_ne_nil h with ⟨c, rest, rfl⟩
  have hnext := here.lt_next c
  have hlater := (here.next c).le_after rest
  rw [after_cons]
  omega

theorem after_takeBytes_le (document : List Char) {p q : Nat} (h : p ≤ q) :
    (start.after (Text.takeBytes p document)).line < (start.after (Text.takeBytes q document)).line
      ∨ (start.after (Text.takeBytes p document)).line
          = (start.after (Text.takeBytes q document)).line
        ∧ (start.after (Text.takeBytes p document)).column
          ≤ (start.after (Text.takeBytes q document)).column := by
  rcases Text.takeBytes_isPrefix_takeBytes h document with ⟨between, hsplit⟩
  rw [← hsplit, after_append]
  exact le_after _ between

/-- The location tells how far into a text it is. -/
theorem after_inj_of_prefix (here : Location) {s t : List Char} (h : s <+: t) :
    here.after s = here.after t ↔ s = t := by
  rcases h with ⟨more, rfl⟩
  constructor
  · intro hsame
    rw [after_append] at hsame
    by_contra hmore
    have hne : more ≠ [] := by
      rintro rfl
      exact hmore (List.append_nil s).symm
    have hlater := (here.after s).lt_after hne
    rw [← hsame] at hlater
    omega
  · intro hsame
    rw [← hsame]

/-- Locations are compared by line, then by column. -/
theorem isLE_compare {a b : Location} :
    (compare a b).isLE = true ↔ a.line < b.line ∨ a.line = b.line ∧ a.column ≤ b.column := by
  have hthen : compare a b = (compare a.line b.line).then (compare a.column b.column) := rfl
  rw [hthen, Ordering.isLE_then_iff_or, Nat.compare_eq_lt, Nat.compare_eq_eq, Nat.isLE_compare]

end Location

/-! ## Offsets of one text -/

/-- Two cuts of a text keep the same characters if they end at the same boundary. -/
theorem Text.takeBytes_eq_takeBytes_iff (s : List Char) {a b : Nat} (h : a ≤ b) :
    takeBytes a s = takeBytes b s ↔ floorBoundary s a = floorBoundary s b := by
  constructor
  · intro hsame
    rw [floorBoundary, floorBoundary, hsame]
  · intro hsame
    rcases takeBytes_isPrefix_takeBytes h s with ⟨between, hsplit⟩
    -- what the later cut keeps in addition takes no bytes
    rw [floorBoundary, floorBoundary, ← hsplit, byteLength_append] at hsame
    have hempty : between = [] := by
      by_contra hne
      have hpos := byteLength_pos hne
      omega
    rw [← hsplit, hempty, List.append_nil]

namespace Event

/-- In an event, a later offset has no earlier location, and none is before the event's own. Two
offsets have the same location exactly if the last boundaries not after them are the same, so no two
characters share a location. -/
theorem locate_in_order (e : Event) {a b : Nat} (h : a ≤ b) :
    (compare (e.locate a) (e.locate b)).isLE = true
      ∧ (compare e.location (e.locate a)).isLE = true
      ∧ ∃ p q, IsGreatest {n | Text.isByteBoundary (Text.bytes e.raw) n = true ∧ n ≤ a} p
        ∧ IsGreatest {n | Text.isByteBoundary (Text.bytes e.raw) n = true ∧ n ≤ b} q
        ∧ (e.locate a = e.locate b ↔ p = q) := by
  have hprefix := Text.takeBytes_isPrefix_takeBytes h e.raw
  refine ⟨?_, ?_, Text.floorBoundary e.raw a, Text.floorBoundary e.raw b,
    Text.isGreatest_floorBoundary e.raw a, Text.isGreatest_floorBoundary e.raw b, ?_⟩
  · rcases hprefix with ⟨between, hsplit⟩
    rw [Location.isLE_compare, locate, locate, ← hsplit, Location.after_append]
    exact Location.le_after _ between
  · rw [Location.isLE_compare]
    exact e.location.le_after (Text.takeBytes a e.raw)
  · rw [locate, locate, e.location.after_inj_of_prefix hprefix,
      Text.takeBytes_eq_takeBytes_iff e.raw h]

/-- In the text `a`, a line feed, `éb`, which starts at column five of line three, the line feed
leads to a later location although its column is smaller, both bytes of `é` have one location, and
`b` has another. -/
theorem locate_over_line :
    let e : Event := ⟨.text, "a\néb".toList, ⟨20, 25⟩, ⟨3, 5⟩, 0⟩
    e.locate 1 = ⟨3, 6⟩ ∧ e.locate 2 = ⟨4, 1⟩
      ∧ (compare (e.locate 1) (e.locate 2)).isLE = true
      ∧ e.locate 2 = e.locate 3 ∧ e.locate 3 ≠ e.locate 4 := by
  intro e
  rcases e.locate_in_order (a := 1) (b := 2) (by decide) with ⟨hline, -⟩
  rcases e.locate_in_order (a := 2) (b := 3) (by decide) with ⟨-, -, p, q, hp, hq, hsame⟩
  rcases e.locate_in_order (a := 3) (b := 4) (by decide) with ⟨-, -, r, s, hr, hs, hother⟩
  refine ⟨by decide +kernel, by decide +kernel, hline, hsame.2 ?_, mt hother.1 ?_⟩
  · have hleft : 2 ≤ p := hp.2 ⟨by decide +kernel, by decide⟩
    have hright : 2 ≤ q := hq.2 ⟨by decide +kernel, by decide⟩
    -- offset 3 is inside of the `é`
    have hinside : q ≠ 3 := by
      rintro rfl
      have hboundary := hq.1.1
      revert hboundary
      decide +kernel
    have hp := hp.1.2
    have hq := hq.1.2
    omega
  · have hafter : 4 ≤ s := hs.2 ⟨by decide +kernel, by decide⟩
    have hbefore := hr.1.2
    omega

end Event

end HtmlLint
