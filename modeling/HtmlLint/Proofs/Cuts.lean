import HtmlLint.Proofs.Placement
import HtmlLint.Token.Scan
import Mathlib.Data.List.Infix
import Mathlib.Order.Bounds.Basic

/-!
# Where text is cut

The readers of markup cut text at the first suffix with a property or after the longest run of
characters with one. The lemmas here determine such a cut from what stands on its two sides, which
is how a reader is shown to read back a known text. Seen from outside, a cut is at the least offset
at which the property holds (`HoldsAt`, `isLeast_breakAt`).

A closing text can only be found too early if it lies inside the data or overlaps its own start.
`Unbordered` excludes the latter, and all closing texts of markup are unbordered.
-/

namespace HtmlLint.Text

/-! ## Cuts determined by their two sides -/

/-- A cut before `t` is the first one if no suffix that starts earlier has the property. -/
theorem breakAt_eq {p : List Char → Bool} {s t : List Char}
    (hbefore : ∀ b, b <:+ s → b ≠ [] → p (b ++ t) = false) (hat : t = [] ∨ p t = true) :
    breakAt p (s ++ t) = (s, t) := by
  induction s with
  | nil =>
    rcases hat with rfl | ht
    · rfl
    · cases t with
      | nil => rfl
      | cons c t => simp [breakAt_cons, ht]
  | cons c s ih =>
    have hhead : p (c :: (s ++ t)) = false :=
      hbefore (c :: s) List.suffix_rfl (List.cons_ne_nil c s)
    have htail : breakAt p (s ++ t) = (s, t) := by
      apply ih
      intro b hb hne
      exact hbefore b (hb.trans (List.suffix_cons c s)) hne
    simp [breakAt_cons, hhead, htail]

/-- The longest run of characters with a property ends where a character lacks it. -/
theorem takeWhile_eq {p : Char → Bool} {s t : List Char} (hs : ∀ c ∈ s, p c = true)
    (ht : ∀ c ∈ t.head?, p c = false) : (s ++ t).takeWhile p = s := by
  have hstop : t.takeWhile p = [] := by
    cases t with
    | nil => rfl
    | cons c t => simp [ht c rfl]
  rw [List.takeWhile_append_of_pos hs, hstop, List.append_nil]

theorem dropWhile_eq {p : Char → Bool} {s t : List Char} (hs : ∀ c ∈ s, p c = true)
    (ht : ∀ c ∈ t.head?, p c = false) : (s ++ t).dropWhile p = t := by
  have hwhole := List.takeWhile_append_dropWhile (p := p) (l := s ++ t)
  rw [takeWhile_eq hs ht] at hwhole
  exact List.append_cancel_left hwhole

/-! ## Cuts by offsets -/

/-- What stands in `s` from offset `n` on has the property. -/
def HoldsAt (p : List Char → Prop) (s : List Char) (n : Nat) : Prop :=
  ∃ a b, s = a ++ b ∧ byteLength a = n ∧ p b

/-- Behind a leading piece the property holds where it holds in the rest. -/
theorem holdsAt_append_iff {p : List Char → Prop} {x s : List Char} {n : Nat} :
    HoldsAt p (x ++ s) (byteLength x + n) ↔ HoldsAt p s n := by
  constructor
  · rintro ⟨a, b, hsplit, hlength, hb⟩
    rcases exists_split_behind hsplit (by omega) with ⟨lead, rfl, rfl⟩
    rw [byteLength_append] at hlength
    exact ⟨lead, b, rfl, by omega, hb⟩
  · rintro ⟨a, b, rfl, rfl, hb⟩
    exact ⟨x ++ a, b, by simp, by simp, hb⟩

/-- A text is cut at the first offset at which the property holds, or at its end. -/
theorem isLeast_breakAt (p : List Char → Bool) (s : List Char) :
    IsLeast {n | n = byteLength s ∨ HoldsAt (p · = true) s n} (byteLength (breakAt p s).1) := by
  have hwhole := breakAt_append p s
  refine ⟨?_, ?_⟩
  · rcases breakAt_snd p s with hend | hholds
    · left
      rw [hend, List.append_nil] at hwhole
      rw [hwhole]
    · exact .inr ⟨_, _, hwhole.symm, rfl, hholds⟩
  · intro n hn
    by_contra hlt
    rw [Nat.not_le] at hlt
    have hlength := congrArg byteLength hwhole
    rw [byteLength_append] at hlength
    rcases hn with rfl | ⟨a, b, hsplit, rfl, hb⟩
    · omega
    · -- the offset lies before the cut, where the property does not hold
      have hparts : [] ++ ((breakAt p s).1 ++ (breakAt p s).2) = a ++ b := hwhole.trans hsplit
      rcases exists_split_within hparts (Nat.zero_le _) (by simpa using hlt) with
        ⟨lead, d, hfirst, hne, -, hrest⟩
      have hnone := breakAt_fst hfirst hne
      rw [← hrest, hb] at hnone
      cases hnone

/-- The first offset at which the property holds is where the text is cut. -/
theorem breakAt_of_isLeast {p : List Char → Bool} {s : List Char} {k : Nat}
    (h : IsLeast {n | HoldsAt (p · = true) s n} k) :
    ∃ a b, breakAt p s = (a, b) ∧ s = a ++ b ∧ byteLength a = k ∧ p b = true := by
  have hcut := isLeast_breakAt p s
  rcases h.1 with ⟨a, b, rfl, rfl, hb⟩
  have hlength : byteLength (breakAt p (a ++ b)).1 = byteLength a := by
    apply Nat.le_antisymm
    · exact hcut.2 (.inr h.1)
    · rcases hcut.1 with hend | hholds
      · rw [hend, byteLength_append]
        exact Nat.le_add_right _ _
      · exact h.2 hholds
  -- both pieces have the same length and stand at the start of one text
  have hwhole := breakAt_append p (a ++ b)
  have hfirst : (breakAt p (a ++ b)).1 = a := by
    rw [← takeBytes_byteLength_append (breakAt p (a ++ b)).1 (breakAt p (a ++ b)).2, hlength,
      hwhole, takeBytes_byteLength_append]
  rw [hfirst] at hwhole
  exact ⟨a, b, Prod.ext hfirst (List.append_cancel_left hwhole), rfl, rfl, hb⟩

/-- A text in which the property holds nowhere is not cut. -/
theorem breakAt_of_forall_not {p : List Char → Bool} {s : List Char}
    (h : ∀ n, ¬ HoldsAt (p · = true) s n) : breakAt p s = (s, []) := by
  have hwhole := breakAt_append p s
  rcases breakAt_snd p s with hend | hholds
  · rw [hend, List.append_nil] at hwhole
    exact Prod.ext hwhole hend
  · exact absurd ⟨_, _, hwhole.symm, rfl, hholds⟩ (h _)

/-- Behind a leading piece, too, the cut is at the first offset. -/
theorem isLeast_breakAt_behind (p : List Char → Bool) (x s : List Char) :
    IsLeast {n | byteLength x ≤ n ∧ (n = byteLength (x ++ s) ∨ HoldsAt (p · = true) (x ++ s) n)}
      (byteLength x + byteLength (breakAt p s).1) := by
  have hleast := isLeast_breakAt p s
  -- an offset of the whole is the length of the piece and an offset of the rest
  have hshift : ∀ n, (byteLength x + n = byteLength (x ++ s)
        ∨ HoldsAt (p · = true) (x ++ s) (byteLength x + n))
      ↔ n = byteLength s ∨ HoldsAt (p · = true) s n := by
    intro n
    rw [holdsAt_append_iff, byteLength_append, Nat.add_left_cancel_iff]
  refine ⟨⟨Nat.le_add_right _ _, (hshift _).2 hleast.1⟩, ?_⟩
  rintro n ⟨hle, hn⟩
  rcases Nat.exists_eq_add_of_le hle with ⟨k, rfl⟩
  exact Nat.add_le_add_left (hleast.2 ((hshift k).1 hn)) _

/-! ## Words in any case -/

/-- A text starts with a word, and a property holds of what follows. -/
theorem exists_word_iff {word s : List Char} {p : List Char → Prop} :
    (sameIgnoringCase (s.take word.length) word = true ∧ p (s.drop word.length))
      ↔ ∃ a b, s = a ++ b ∧ lower a = lower word ∧ p b := by
  constructor
  · rintro ⟨hword, hrest⟩
    rw [sameIgnoringCase, beq_iff_eq] at hword
    exact ⟨_, _, (List.take_append_drop word.length s).symm, hword, hrest⟩
  · rintro ⟨a, b, rfl, hword, hrest⟩
    have hlength : word.length = a.length := by
      simpa [lower] using congrArg List.length hword.symm
    rw [hlength, List.take_left, List.drop_left, sameIgnoringCase, beq_iff_eq]
    exact ⟨hword, hrest⟩

/-! ## Opening and closing texts -/

theorem startsWith_iff_prefix {opener s : List Char} :
    startsWith opener s = true ↔ opener <+: s := by
  rw [startsWith_iff]
  constructor
  · rintro ⟨rest, rfl⟩
    exact List.prefix_append opener rest
  · rintro ⟨rest, rfl⟩
    exact ⟨rest, rfl⟩

theorem after?_eq_none_iff {opener s : List Char} : after? opener s = none ↔ ¬ opener <+: s := by
  rw [← startsWith_iff_prefix, startsWith]
  simp

/-- Text that lacks an opener still lacks it before a character that the opener does not have. -/
theorem not_prefix_append_cons {opener s t : List Char} {c : Char} (hs : ¬ opener <+: s)
    (hc : c ∉ opener) : ¬ opener <+: s ++ c :: t := by
  intro hprefix
  rcases List.prefix_or_prefix_of_prefix hprefix (List.prefix_append s (c :: t)) with hin | hout
  · exact hs hin
  · rcases hout with ⟨u, rfl⟩
    have hu : u <+: c :: t := (List.prefix_append_right_inj s).1 hprefix
    cases u with
    | nil => exact hs (by simp)
    | cons d u =>
      have hd : d = c := (List.cons_prefix_cons.1 hu).1
      exact hc (by simp [hd])

/-- No proper part of the text is both at its start and at its end. -/
def Unbordered (close : List Char) : Prop :=
  ∀ v ∈ close.tails, v <+: close → v = [] ∨ v = close

instance (close : List Char) : Decidable (Unbordered close) :=
  inferInstanceAs (Decidable (∀ v ∈ close.tails, v <+: close → v = [] ∨ v = close))

/-- Data without the closing text has none that starts in it, even before the closing text. -/
theorem startsWith_suffix_append {close data b rest : List Char} (hun : Unbordered close)
    (hdata : ¬ close <:+: data) (hb : b <:+ data) (hne : b ≠ []) :
    startsWith close (b ++ (close ++ rest)) = false := by
  rw [Bool.eq_false_iff]
  intro hstarts
  have hprefix := startsWith_iff_prefix.1 hstarts
  rcases List.prefix_or_prefix_of_prefix hprefix (List.prefix_append b _) with hin | hout
  · exact hdata (hin.isInfix.trans hb.isInfix)
  · -- the closing text would have to overlap itself in `v`
    rcases hout with ⟨v, hv⟩
    have hover : v <+: close ++ rest := by
      have h : b ++ v <+: b ++ (close ++ rest) := by rw [hv]; exact hprefix
      exact (List.prefix_append_right_inj b).1 h
    have hlength : v.length ≤ close.length := by simp [← hv]
    have hborder : v <+: close := List.prefix_of_prefix_length_le hover
      (List.prefix_append close rest) hlength
    have hsuffix : v <:+ close := ⟨b, hv⟩
    rcases hun v ((List.mem_tails v close).2 hsuffix) hborder with hnil | hall
    · have hbclose : b = close := by simpa [hnil] using hv
      exact hdata (hbclose ▸ hb.isInfix)
    · have hbnil : b = [] := by simpa [hall] using hv
      exact hne hbnil

end HtmlLint.Text

namespace HtmlLint

/-- Reading up to a closing text gives back data that does not hold it. -/
theorem readEnclosed_eq {close data rest : List Char} (hun : Text.Unbordered close)
    (hdata : ¬ close <:+: data) : readEnclosed close (data ++ (close ++ rest))
      = ⟨data, close, rest⟩ := by
  have hclose : Text.startsWith close (close ++ rest) = true :=
    Text.startsWith_iff.2 ⟨rest, rfl⟩
  have hbreak : Text.breakAt (Text.startsWith close) (data ++ (close ++ rest))
      = (data, close ++ rest) := by
    apply Text.breakAt_eq
    · intro b hb hne
      exact Text.startsWith_suffix_append hun hdata hb hne
    · exact .inr hclose
  simp [readEnclosed, hbreak]

end HtmlLint
