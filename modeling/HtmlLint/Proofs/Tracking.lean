import HtmlLint.Proofs.Bytes.Slices

/-!
# Questions in any order

A locator keeps the place of its last answer and goes on from there, so the work for an answer
depends on what was asked before. The answer does not: it is the location that counting gives over
the text up to the last boundary not after the offset, also for an offset inside a character or past
the end.

* `Text.isGreatest_floorBoundary` — the last boundary not after an offset, boundaries being told by
  bytes.
* `Locator.answers` — what a locator answers when it is asked for some offsets in turn.
* `Locator.answers_by_counting` — each answer is the counted one, whatever the other questions are.
-/

namespace HtmlLint

namespace Text

/-- Cutting at an offset is cutting at the last boundary that is not after it. -/
theorem isGreatest_floorBoundary (s : List Char) (n : Nat) :
    IsGreatest {b | isByteBoundary (bytes s) b = true ∧ b ≤ n} (floorBoundary s n) := by
  simp only [isByteBoundary_bytes]
  refine ⟨⟨?_, byteLength_takeBytes_le n s⟩, ?_⟩
  · exact isBoundary_iff.2 ⟨takeBytes n s, dropBytes n s,
      (takeBytes_append_dropBytes n s).symm, rfl⟩
  · rintro b ⟨hboundary, hle⟩
    rcases isBoundary_iff.1 hboundary with ⟨lead, rest, rfl, rfl⟩
    -- the piece that ends at the boundary fits, so it is part of what is cut off
    rw [floorBoundary, takeBytes_append hle, byteLength_append]
    exact Nat.le_add_right _ _

end Text

namespace Locator

/-- The answers to questions that are asked one after the other. -/
def answers (here : Locator) : List Nat → List Location
  | [] => []
  | target :: targets => (here.locate target).location :: (here.locate target).answers targets

/-- From any place on, each question is answered as if it were the only one. -/
theorem Sound.answers_eq {here : Locator} (h : here.Sound) (targets : List Nat) :
    here.answers targets
      = targets.map fun target => Location.start.after (Text.takeBytes target here.source) := by
  induction targets generalizing here with
  | nil => rfl
  | cons target targets ih =>
    rcases h.locate target with ⟨hsound, hsource⟩
    rw [answers, ih hsound, hsource, h.locate_eq]
    rfl

/-- Whatever a locator is asked in turn, it answers each question with the location counted over the
text up to the last boundary not after the offset, which is the whole text for an offset past its
end. -/
theorem answers_by_counting (source : List Char) (targets : List Nat) :
    ((atStart source).answers targets).length = targets.length
      ∧ ∀ (n target : Nat), targets[n]? = some target →
        ∃ b piece,
          IsGreatest {b | Text.isByteBoundary (Text.bytes source) b = true ∧ b ≤ target} b
            ∧ Span.slice? ⟨0, b⟩ source = some piece
            ∧ ((atStart source).answers targets)[n]? = some (Location.start.after piece)
            ∧ (Text.byteLength source ≤ target →
              b = Text.byteLength source ∧ piece = source) := by
  have hanswers := (sound_atStart source).answers_eq targets
  refine ⟨by rw [hanswers, List.length_map], ?_⟩
  intro n target htarget
  refine ⟨Text.floorBoundary source target, Text.takeBytes target source,
    Text.isGreatest_floorBoundary source target, Span.slice?_zero_floorBoundary source target,
    ?_, ?_⟩
  · rw [hanswers, List.getElem?_map, htarget]
    rfl
  · intro hpast
    have hwhole := Text.takeBytes_of_le hpast
    exact ⟨congrArg Text.byteLength hwhole, hwhole⟩

/-- Asked in `a`, a line feed, `éb` for the `b`, then back inside of `é`, then far past the end, a
locator starts over once and answers as if it were asked only once. -/
theorem answers_back_and_forth :
    ((atStart "a\néb".toList).answers [4, 3, 99])[1]? = some ⟨2, 1⟩
      ∧ ((atStart "a\néb".toList).answers [4, 3, 99])[2]? = some ⟨2, 3⟩ := by
  rcases answers_by_counting "a\néb".toList [4, 3, 99] with ⟨-, hcounted⟩
  rcases hcounted 1 3 rfl with ⟨b, piece, hgreatest, hslice, hinside, -⟩
  rcases hcounted 2 99 rfl with ⟨_, whole, -, -, hpast, hwhole⟩
  have hb : b = 2 := by
    refine hgreatest.unique ⟨by decide +kernel, ?_⟩
    rintro n ⟨hboundary, hle⟩
    -- offset 3 is inside of the `é`
    have hnot : Text.isByteBoundary (Text.bytes "a\néb".toList) 3 = false := by decide +kernel
    have hne : n ≠ 3 := by
      rintro rfl
      rw [hnot] at hboundary
      cases hboundary
    omega
  rw [hb] at hslice
  have hpiece : piece = "a\n".toList := by
    have hknown : Span.slice? ⟨0, 2⟩ "a\néb".toList = some "a\n".toList := by decide +kernel
    exact Option.some.inj (hslice.symm.trans hknown)
  rw [hinside, hpast, hpiece, (hwhole (by decide +kernel)).2]
  decide +kernel

end Locator

end HtmlLint
