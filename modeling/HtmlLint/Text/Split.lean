/-!
# Splitting text

Readers of markup, lists and lines all cut text at the first place where something holds. The cuts
come in three forms: before the first suffix with a property (`breakAt`), around the first
character with a property (`cutAt?`), and at every occurrence of a separator (`splitOn`).
Each is given by equations on the characters, and the two that walk long text do so in constant
stack.
-/

namespace HtmlLint.Text

/-- What follows `opener` in `s`, if `s` starts with it. -/
def after? : List Char → List Char → Option (List Char)
  | [], s => some s
  | _ :: _, [] => none
  | a :: opener, c :: s => if a = c then after? opener s else none

theorem after?_eq_some_iff {opener s rest : List Char} :
    after? opener s = some rest ↔ s = opener ++ rest := by
  induction opener generalizing s with
  | nil => simp [after?]
  | cons a opener ih =>
    cases s with
    | nil => simp [after?]
    | cons c s =>
      by_cases same : a = c
      · simp [after?, same, ih]
      · simp [after?, same, Ne.symm same]

@[simp]
theorem after?_append (opener rest : List Char) : after? opener (opener ++ rest) = some rest :=
  after?_eq_some_iff.2 rfl

/-- `s` starts with `opener`. -/
def startsWith (opener s : List Char) : Bool :=
  (after? opener s).isSome

theorem startsWith_iff {opener s : List Char} :
    startsWith opener s = true ↔ ∃ rest, s = opener ++ rest := by
  simp [startsWith, Option.isSome_iff_exists, after?_eq_some_iff]

/-! ## Before the first suffix with a property -/

/-- Splits `s` before its first non-empty suffix that satisfies `p`; without one, all of `s` stands
before the split. -/
def breakAt (p : List Char → Bool) (s : List Char) : List Char × List Char :=
  go [] s
where
  /-- Carries the characters passed so far, latest first. -/
  go (passed : List Char) : List Char → List Char × List Char
    | [] => (passed.reverse, [])
    | c :: s => if p (c :: s) then (passed.reverse, c :: s) else go (c :: passed) s

theorem breakAt_go (p : List Char → Bool) (passed s : List Char) :
    breakAt.go p passed s = (passed.reverse ++ (breakAt p s).1, (breakAt p s).2) := by
  induction s generalizing passed with
  | nil => simp [breakAt, breakAt.go]
  | cons c s ih =>
    simp only [breakAt, breakAt.go]
    split
    · simp
    · rw [ih, ih [c]]
      simp

@[simp]
theorem breakAt_nil (p : List Char → Bool) : breakAt p [] = ([], []) := rfl

theorem breakAt_cons (p : List Char → Bool) (c : Char) (s : List Char) :
    breakAt p (c :: s) =
      if p (c :: s) then ([], c :: s) else (c :: (breakAt p s).1, (breakAt p s).2) := by
  rw [breakAt, breakAt.go]
  split
  · rfl
  · rw [breakAt_go]
    rfl

/-- Splitting loses nothing. -/
@[simp]
theorem breakAt_append (p : List Char → Bool) (s : List Char) :
    (breakAt p s).1 ++ (breakAt p s).2 = s := by
  induction s with
  | nil => rfl
  | cons c s ih =>
    rw [breakAt_cons]
    split
    · rfl
    · simp [ih]

/-- What stands after the split has the property. -/
theorem breakAt_snd (p : List Char → Bool) (s : List Char) :
    (breakAt p s).2 = [] ∨ p (breakAt p s).2 = true := by
  induction s with
  | nil => exact .inl rfl
  | cons c s ih =>
    rw [breakAt_cons]
    split
    · next holds => exact .inr holds
    · exact ih

/-- No suffix that starts before the split has the property. -/
theorem breakAt_fst {p : List Char → Bool} {s a b : List Char}
    (h : (breakAt p s).1 = a ++ b) (hb : b ≠ []) : p (b ++ (breakAt p s).2) = false := by
  induction s generalizing a with
  | nil =>
    obtain ⟨-, rfl⟩ := List.append_eq_nil_iff.1 h.symm
    exact absurd rfl hb
  | cons c s ih =>
    rw [breakAt_cons] at h ⊢
    split at h
    · obtain ⟨-, rfl⟩ := List.append_eq_nil_iff.1 h.symm
      exact absurd rfl hb
    · next fails =>
      rw [if_neg fails]
      cases a with
      | nil =>
        have whole : b ++ (breakAt p s).2 = c :: s := by
          rw [← List.nil_append b, ← h]
          simp
        rw [whole]
        simpa using fails
      | cons d a => exact ih (List.cons.inj h).2

/-! ## Around the first character with a property -/

/-- The text before the first character that satisfies `p` and the text after it. -/
def cutAt? (p : Char → Bool) (s : List Char) : Option (List Char × List Char) :=
  match s.dropWhile (fun c => !p c) with
  | [] => none
  | _ :: rest => some (s.takeWhile (fun c => !p c), rest)

/-! ## At every separator -/

/-- The pieces of `s` between occurrences of `sep`, one more than there are occurrences. -/
def splitOn (sep : Char) (s : List Char) : List (List Char) :=
  go [] s
where
  /-- Carries the current piece, latest character first. -/
  go (piece : List Char) : List Char → List (List Char)
    | [] => [piece.reverse]
    | c :: s => if c = sep then piece.reverse :: go [] s else go (c :: piece) s

theorem splitOn_go (sep : Char) (piece s : List Char) :
    splitOn.go sep piece s = (splitOn sep s).modifyHead (piece.reverse ++ ·) := by
  induction s generalizing piece with
  | nil => simp [splitOn, splitOn.go]
  | cons c s ih =>
    simp only [splitOn, splitOn.go]
    split
    · simp
    · rw [ih, ih [c], List.modifyHead_modifyHead]
      congr 1
      funext t
      simp

@[simp]
theorem splitOn_nil (sep : Char) : splitOn sep [] = [[]] := rfl

@[simp]
theorem splitOn_cons_self (sep : Char) (s : List Char) :
    splitOn sep (sep :: s) = [] :: splitOn sep s := by
  simp [splitOn, splitOn.go]

theorem splitOn_cons_of_ne {sep c : Char} (h : c ≠ sep) (s : List Char) :
    splitOn sep (c :: s) = (splitOn sep s).modifyHead (c :: ·) := by
  rw [splitOn, splitOn.go, if_neg h, splitOn_go]
  rfl

end HtmlLint.Text
