import HtmlLint.Event.Basic
import HtmlLint.Proofs.Placement

/-!
# Locations by counting

The location of an offset is found by counting lines and columns from the start of the document.
A locator never counts so much: it goes on from its last answer. `Locator.locate_eq` says that its
answers are the same, for any document and after any questions.

* `Locator.counted` — the locator that has counted from the start.
* `Locator.Sound` — the invariant of locators: the location belongs to the text passed.
* `Event.Located` — the text, the span and the location of an event belong to one place of a
  document. What an event says about its place follows from this alone.
-/

namespace HtmlLint

namespace Text

variable {a : List Char} {n : Nat}

/-- An offset past a leading piece cuts what comes after the piece. -/
theorem takeBytes_append (h : byteLength a ≤ n) (b : List Char) :
    takeBytes n (a ++ b) = a ++ takeBytes (n - byteLength a) b := by
  induction a generalizing n with
  | nil => rfl
  | cons c a ih =>
    have hparts : c.utf8Size ≤ n ∧ byteLength a ≤ n - c.utf8Size := by
      rw [byteLength_cons] at h
      omega
    simp [takeBytes, hparts.1, ih hparts.2, Nat.sub_sub]

/-- Past the end nothing is cut off. -/
theorem takeBytes_of_le (h : byteLength a ≤ n) : takeBytes n a = a := by
  have htake := takeBytes_append h []
  rwa [List.append_nil, takeBytes, List.append_nil] at htake

theorem dropBytes_append (h : byteLength a ≤ n) (b : List Char) :
    dropBytes n (a ++ b) = dropBytes (n - byteLength a) b := by
  have hwhole := takeBytes_append_dropBytes n (a ++ b)
  have hrest := takeBytes_append_dropBytes (n - byteLength a) b
  rw [takeBytes_append h, List.append_assoc] at hwhole
  have hsame := List.append_cancel_left hwhole
  exact List.append_cancel_left (hsame.trans hrest.symm)

end Text

/-! ## Locators -/

namespace Locator

/-- A locator of `source` that has counted from the start to the last boundary not after
`target`. -/
def counted (source : List Char) (target : Nat) : Locator :=
  ⟨source, Text.floorBoundary source target, Text.dropBytes target source,
    Location.start.after (Text.takeBytes target source)⟩

/-- The locator has passed a leading piece of its document, and knows where the piece ends. -/
def Sound (here : Locator) : Prop :=
  ∃ passed, here.source = passed ++ here.ahead ∧ here.offset = Text.byteLength passed
    ∧ here.location = Location.start.after passed

theorem sound_atStart (source : List Char) : (atStart source).Sound :=
  ⟨[], rfl, rfl, rfl⟩

theorem sound_counted (source : List Char) (target : Nat) : (counted source target).Sound :=
  ⟨Text.takeBytes target source, (Text.takeBytes_append_dropBytes target source).symm, rfl, rfl⟩

/-- Going on to a later offset is as good as counting from the start. -/
theorem Sound.forward_eq {here : Locator} (h : here.Sound) {target : Nat}
    (hle : here.offset ≤ target) : here.forward target = counted here.source target := by
  rcases h with ⟨passed, hsource, hoffset, hlocation⟩
  have hfits : Text.byteLength passed ≤ target := by rw [← hoffset]; exact hle
  have htake := Text.takeBytes_append hfits here.ahead
  have hdrop := Text.dropBytes_append hfits here.ahead
  rw [Locator.forward_eq, counted, Text.floorBoundary, hsource, htake, hdrop, hoffset, hlocation]
  simp

/-- Whatever was asked before, the answer is the one that counting from the start gives. -/
theorem Sound.locate_eq {here : Locator} (h : here.Sound) (target : Nat) :
    here.locate target = counted here.source target := by
  unfold locate
  split
  · exact (sound_atStart here.source).forward_eq (Nat.zero_le target)
  · next hle => exact h.forward_eq (Nat.le_of_not_lt hle)

/-- An answer leaves the locator at a place of the same document. -/
theorem Sound.locate {here : Locator} (h : here.Sound) (target : Nat) :
    (here.locate target).Sound ∧ (here.locate target).source = here.source := by
  rw [h.locate_eq]
  exact ⟨sound_counted here.source target, rfl⟩

end Locator

/-! ## Places of events -/

namespace Event

/-- The event stands in `source` where its span says, and its location is that of its start. -/
def Located (source : List Char) (e : Event) : Prop :=
  ∃ before, e.span.Covers source before e.raw ∧ e.location = Location.start.after before

variable {source : List Char} {e : Event}

theorem Located.location_eq (h : e.Located source) :
    e.location = Location.start.after (Text.takeBytes e.span.start source) := by
  rcases h with ⟨before, hcovers, hlocation⟩
  rw [hcovers.takeBytes_start, hlocation]

/-- Locating inside an event is counting from the start of the document. -/
theorem Located.locate_eq (h : e.Located source) (k : Nat) :
    e.locate k = Location.start.after
      (Text.takeBytes (e.span.start + Text.floorBoundary e.raw k) source) := by
  rcases h with ⟨before, hcovers, hlocation⟩
  rw [hcovers.takeBytes_within, Location.after_append, Event.locate, hlocation]

end Event

end HtmlLint
