import HtmlLint.Proofs.Cuts
import HtmlLint.Text.Characters

/-!
# Recoding text

A recoding rewrites a document character by character. A space becomes one space or several, and
any other character stays one character, which may change at most the case of a letter. Ending lines
differently is a recoding, and so is putting letters in lower case.

The cuts that readers of markup make do not see a recoding: cutting the recoded text gives the
recoded pieces.

* `Recoding.Keeps` — a property of characters that a recoding keeps. Runs of such characters are cut
  alike.
* `Recoding.Fixes` — a character that is written as itself and for nothing else. Texts of such
  characters are found alike.
* `Recoding.Sees` — a property of what comes next that is the same before and after, and that no
  text has that starts with a space. The first place with such a property is found alike.
-/

namespace HtmlLint

/-! ## Spaces and letters -/

theorem isAlpha_of_isSpace {c : Char} (h : isSpace c = true) : c.isAlpha = false := by
  simp only [isSpace, Bool.or_eq_true, beq_iff_eq] at h
  rcases h with (((rfl | rfl) | rfl) | rfl) | rfl <;> decide

theorem not_isSpace_of_all {s : List Char} (hs : s.all (fun c => !isSpace c) = true) :
    ∀ c ∈ s, isSpace c = false := by
  simpa using hs

theorem isSpace_of_isAlpha {c : Char} (h : c.isAlpha = true) : isSpace c = false := by
  cases hspace : isSpace c with
  | true =>
    rw [isAlpha_of_isSpace hspace] at h
    cases h
  | false => rfl

theorem endsTagName_of_isAlpha {c : Char} (h : c.isAlpha = true) : endsTagName c = false := by
  simp only [endsTagName, Bool.or_eq_false_iff, beq_eq_false_iff_ne]
  refine ⟨⟨isSpace_of_isAlpha h, ?_⟩, ?_⟩ <;> rintro rfl <;> cases h

/-- Letters are told by their code points. -/
theorem isAlpha_iff {c : Char} :
    c.isAlpha = true ↔ 65 ≤ c.val ∧ c.val ≤ 90 ∨ 97 ≤ c.val ∧ c.val ≤ 122 := by
  have hcode : c.isAlpha = (decide (65 ≤ c.val ∧ c.val ≤ 90)
      || decide (97 ≤ c.val) && decide (c.val ≤ 122)) := rfl
  simp [hcode]

theorem val_toLower (c : Char) :
    c.toLower.val = if 65 ≤ c.val ∧ c.val ≤ 90 then c.val + 32 else c.val := by
  split
  · next h => exact congrArg Char.val (dif_pos h)
  · next h => exact congrArg Char.val (dif_neg h)

theorem eq_or_isAlpha_of_toLower_eq {c d : Char} (h : c.toLower = d.toLower) :
    c = d ∨ c.isAlpha = true ∧ d.isAlpha = true := by
  have hval : c.toLower.val = d.toLower.val := congrArg Char.val h
  simp only [val_toLower] at hval
  rw [isAlpha_iff, isAlpha_iff, Char.ext_iff]
  grind

/-- Only letters are letters in lower case. -/
theorem isAlpha_of_lower {s : List Char} (h : (Text.lower s).all Char.isAlpha = true) :
    ∀ c ∈ s, c.isAlpha = true := by
  intro c hc
  have hlower := List.all_eq_true.1 h c.toLower (List.mem_map_of_mem hc)
  rw [isAlpha_iff, val_toLower] at hlower
  rw [isAlpha_iff]
  grind

theorem beq_toLower_of_isSpace {c d : Char} (hc : isSpace c = true) (hd : isSpace d = false) :
    (c.toLower == d.toLower) = false := by
  rw [beq_eq_false_iff_ne]
  intro h
  rcases eq_or_isAlpha_of_toLower_eq h with rfl | ⟨hletter, -⟩
  · rw [hc] at hd
    cases hd
  · rw [isAlpha_of_isSpace hc] at hletter
    cases hletter

/-- Changing the case of letters makes no space. -/
theorem not_isSpace_of_mem_lower {s : List Char} (hs : ∀ c ∈ s, isSpace c = false) :
    ∀ c ∈ Text.lower s, isSpace c = false := by
  intro c hc
  rcases List.mem_map.1 hc with ⟨d, hd, rfl⟩
  have hval := val_toLower d
  split at hval
  · apply isSpace_of_isAlpha
    rw [isAlpha_iff, hval]
    grind
  · rw [Char.ext hval]
    exact hs d hd

/-! ## Recodings -/

/-- A way to write every character of a document anew. -/
structure Recoding where
  write : Char → List Char
  /-- Space stays space. -/
  write_space : ∀ c, isSpace c = true → write c ≠ [] ∧ ∀ d ∈ write c, isSpace d = true
  /-- Any other character stays one character, up to the case of a letter. -/
  write_other : ∀ c, isSpace c = false → ∃ d, write c = [d] ∧ d.toLower = c.toLower

namespace Recoding

/-- The text `s` written anew. -/
def apply (r : Recoding) (s : List Char) : List Char :=
  s.flatMap r.write

/-- Only spaces are written in another way. -/
def Exact (r : Recoding) : Prop :=
  ∀ c, isSpace c = false → r.write c = [c]

variable {r : Recoding} {p q : Char → Bool} {x : Char}

@[simp]
theorem apply_nil : r.apply [] = [] := rfl

@[simp]
theorem apply_cons (c : Char) (s : List Char) : r.apply (c :: s) = r.write c ++ r.apply s :=
  List.flatMap_cons

@[simp]
theorem apply_append (s t : List Char) : r.apply (s ++ t) = r.apply s ++ r.apply t :=
  List.flatMap_append

theorem exists_write (r : Recoding) (c : Char) : ∃ d s, r.write c = d :: s := by
  cases hc : isSpace c with
  | true => exact List.exists_cons_of_ne_nil (r.write_space c hc).1
  | false =>
    rcases r.write_other c hc with ⟨d, hd, -⟩
    exact ⟨d, [], hd⟩

@[simp]
theorem apply_eq_nil_iff {s : List Char} : r.apply s = [] ↔ s = [] := by
  cases s with
  | nil => simp
  | cons c s =>
    rcases r.exists_write c with ⟨d, t, hd⟩
    simp [hd]

/-- Without spaces, an exact recoding changes nothing. -/
theorem Exact.apply_eq (h : r.Exact) {s : List Char} (hs : ∀ c ∈ s, isSpace c = false) :
    r.apply s = s := by
  induction s with
  | nil => rfl
  | cons c s ih =>
    have hc : r.write c = [c] := h c (hs c List.mem_cons_self)
    rw [apply_cons, hc, ih fun d hd => hs d (List.mem_cons_of_mem c hd)]
    rfl

/-! ## Properties of characters -/

/-- Every character is written by characters that have the property exactly if it does. -/
def Keeps (r : Recoding) (p : Char → Bool) : Prop :=
  ∀ c, ∀ d ∈ r.write c, p d = p c

theorem keeps_of (hspace : ∀ c d, isSpace c = true → isSpace d = true → p d = p c)
    (hletter : ∀ c d, c.isAlpha = true → d.isAlpha = true → p d = p c) : r.Keeps p := by
  intro c d hd
  cases hc : isSpace c with
  | true => exact hspace c d hc ((r.write_space c hc).2 d hd)
  | false =>
    rcases r.write_other c hc with ⟨e, he, hlower⟩
    obtain rfl : d = e := by simpa [he] using hd
    rcases eq_or_isAlpha_of_toLower_eq hlower with rfl | ⟨hd, hc⟩
    · rfl
    · exact hletter c d hc hd

theorem keeps_isSpace : r.Keeps isSpace := by
  apply keeps_of
  · intro c d hc hd
    rw [hc, hd]
  · intro c d hc hd
    rw [isSpace_of_isAlpha hc, isSpace_of_isAlpha hd]

theorem keeps_isAlpha : r.Keeps Char.isAlpha := by
  apply keeps_of
  · intro c d hc hd
    rw [isAlpha_of_isSpace hc, isAlpha_of_isSpace hd]
  · intro c d hc hd
    rw [hc, hd]

theorem Keeps.or (hp : r.Keeps p) (hq : r.Keeps q) : r.Keeps fun c => p c || q c := by
  intro c d hd
  simp only [hp c d hd, hq c d hd]

theorem Keeps.and (hp : r.Keeps p) (hq : r.Keeps q) : r.Keeps fun c => p c && q c := by
  intro c d hd
  simp only [hp c d hd, hq c d hd]

theorem Keeps.not (hp : r.Keeps p) : r.Keeps fun c => !p c := by
  intro c d hd
  simp only [hp c d hd]

theorem Keeps.takeWhile (h : r.Keeps p) (s : List Char) :
    (r.apply s).takeWhile p = r.apply (s.takeWhile p) := by
  induction s with
  | nil => rfl
  | cons c s ih =>
    cases hc : p c with
    | true =>
      have hall : ∀ d ∈ r.write c, p d = true := fun d hd => (h c d hd).trans hc
      rw [apply_cons, List.takeWhile_append_of_pos hall, ih]
      simp [hc]
    | false =>
      rcases r.exists_write c with ⟨d, t, hd⟩
      have hhead : p d = false := (h c d (by simp [hd])).trans hc
      simp [hd, hhead, hc]

theorem Keeps.dropWhile (h : r.Keeps p) (s : List Char) :
    (r.apply s).dropWhile p = r.apply (s.dropWhile p) := by
  -- what is dropped is whatever comes after what is taken
  have hwhole := congrArg r.apply (List.takeWhile_append_dropWhile (p := p) (l := s))
  have hcut := List.takeWhile_append_dropWhile (p := p) (l := r.apply s)
  rw [h.takeWhile, ← hwhole, apply_append] at hcut
  rw [← hwhole, apply_append]
  exact List.append_cancel_left hcut

theorem Keeps.all (h : r.Keeps p) (s : List Char) : (r.apply s).all p = s.all p := by
  induction s with
  | nil => rfl
  | cons c s ih =>
    rcases r.exists_write c with ⟨d, t, hd⟩
    have hwrite : (r.write c).all p = p c := by
      rw [Bool.eq_iff_iff, List.all_eq_true]
      constructor
      · intro hall
        exact (h c d (by simp [hd])) ▸ hall d (by simp [hd])
      · intro hc e he
        rw [h c e he, hc]
    rw [apply_cons, List.all_append, hwrite, ih, List.all_cons]

/-- The first character of a recoded text is as good as the first character of the text. -/
theorem Keeps.head? (h : r.Keeps p) (s : List Char) :
    (r.apply s).head?.map p = s.head?.map p := by
  cases s with
  | nil => rfl
  | cons c s =>
    rcases r.exists_write c with ⟨d, t, hd⟩
    have hhead : p d = p c := h c d (by simp [hd])
    simp [hd, hhead]

theorem Keeps.any_head? (h : r.Keeps p) (s : List Char) :
    (r.apply s).head?.any p = s.head?.any p := by
  have hany : ∀ o : Option Char, o.any p = (o.map p).any id := by
    intro o
    cases o <;> rfl
  rw [hany, h.head?, ← hany]

theorem Keeps.all_head? (h : r.Keeps p) (s : List Char) :
    (r.apply s).head?.all p = s.head?.all p := by
  have hall : ∀ o : Option Char, o.all p = (o.map p).all id := by
    intro o
    cases o <;> rfl
  rw [hall, h.head?, ← hall]

/-! ## Texts that are not changed -/

/-- The character is written as itself, and no other character is written with it. -/
def Fixes (r : Recoding) (x : Char) : Prop :=
  r.write x = [x] ∧ ∀ c, x ∈ r.write c → c = x

/-- Every mark is fixed, whatever becomes of letters and spaces. -/
theorem fixes_of_mark (r : Recoding) (hspace : isSpace x = false) (hletter : x.isAlpha = false) :
    r.Fixes x := by
  -- a mark has no other case
  have hsame : ∀ {c d : Char}, c.toLower = d.toLower → c = x ∨ d = x → c = d := by
    intro c d hlower hx
    rcases eq_or_isAlpha_of_toLower_eq hlower with rfl | ⟨hc, hd⟩
    · rfl
    · rcases hx with rfl | rfl <;> simp_all
  constructor
  · rcases r.write_other x hspace with ⟨d, hd, hlower⟩
    rw [hd, hsame hlower (.inr rfl)]
  · intro c hmem
    have hc : isSpace c = false := (keeps_isSpace c x hmem).symm.trans hspace
    rcases r.write_other c hc with ⟨d, hd, hlower⟩
    obtain rfl : x = d := by simpa [hd] using hmem
    exact (hsame hlower (.inl rfl)).symm

theorem Exact.fixes (h : r.Exact) (hspace : isSpace x = false) : r.Fixes x := by
  refine ⟨h x hspace, ?_⟩
  intro c hmem
  have hc : isSpace c = false := (keeps_isSpace c x hmem).symm.trans hspace
  rw [h c hc, List.mem_singleton] at hmem
  exact hmem.symm

theorem Fixes.keeps (h : r.Fixes x) : r.Keeps (· == x) := by
  intro c d hd
  rw [Bool.eq_iff_iff, beq_iff_eq, beq_iff_eq]
  constructor
  · rintro rfl
    exact h.2 c hd
  · rintro rfl
    simpa [h.1] using hd

theorem Fixes.apply_cons (h : r.Fixes x) (s : List Char) : r.apply (x :: s) = x :: r.apply s := by
  simp [h.1]

theorem Fixes.head?_eq_iff (h : r.Fixes x) {s : List Char} :
    (r.apply s).head? = some x ↔ s.head? = some x := by
  have hany : ∀ o : Option Char, o = some x ↔ o.any (· == x) = true := by
    intro o
    cases o <;> simp
  rw [hany, hany, h.keeps.any_head? s]

theorem apply_eq_self {s : List Char} (hs : ∀ x ∈ s, r.Fixes x) : r.apply s = s := by
  induction s with
  | nil => rfl
  | cons x s ih =>
    rw [(hs x List.mem_cons_self).apply_cons, ih fun y hy => hs y (List.mem_cons_of_mem x hy)]

theorem after?_apply {opener : List Char} (hfix : ∀ x ∈ opener, r.Fixes x) (s : List Char) :
    Text.after? opener (r.apply s) = (Text.after? opener s).map r.apply := by
  induction opener generalizing s with
  | nil => rfl
  | cons x opener ih =>
    have hx : r.Fixes x := hfix x List.mem_cons_self
    have hothers : ∀ y ∈ opener, r.Fixes y := fun y hy => hfix y (List.mem_cons_of_mem x hy)
    cases s with
    | nil => rfl
    | cons c s =>
      by_cases hc : x = c
      · subst hc
        simp [hx.1, Text.after?, ih hothers]
      · rcases r.exists_write c with ⟨d, t, hd⟩
        have hhead : x ≠ d := by
          rintro rfl
          exact hc (hx.2 c (by simp [hd])).symm
        simp [hd, Text.after?, hc, hhead]

theorem startsWith_apply {opener : List Char} (hfix : ∀ x ∈ opener, r.Fixes x) (s : List Char) :
    Text.startsWith opener (r.apply s) = Text.startsWith opener s := by
  simp [Text.startsWith, after?_apply hfix]

/-! ## The first place with a property -/

/-- The property sees no difference between a text and the recoded text, and holds of no text that
starts with a space. -/
structure Sees (r : Recoding) (p : List Char → Bool) : Prop where
  apply : ∀ s, p (r.apply s) = p s
  space : ∀ c s, isSpace c = true → p (c :: s) = false

theorem breakAt_spaces {p : List Char → Bool}
    (hspace : ∀ c s, isSpace c = true → p (c :: s) = false) {gap : List Char}
    (hgap : ∀ c ∈ gap, isSpace c = true) (s : List Char) :
    Text.breakAt p (gap ++ s) = (gap ++ (Text.breakAt p s).1, (Text.breakAt p s).2) := by
  induction gap with
  | nil => rfl
  | cons c gap ih =>
    have hc : isSpace c = true := hgap c List.mem_cons_self
    rw [List.cons_append, Text.breakAt_cons, hspace c _ hc,
      ih fun d hd => hgap d (List.mem_cons_of_mem c hd)]
    rfl

/-- The parts before and after the cut are recoded each by itself. -/
theorem Sees.breakAt {p : List Char → Bool} (h : r.Sees p) (s : List Char) :
    Text.breakAt p (r.apply s) = (r.apply (Text.breakAt p s).1, r.apply (Text.breakAt p s).2) := by
  induction s with
  | nil => rfl
  | cons c s ih =>
    cases hc : isSpace c with
    | true =>
      -- no cut is made inside the spaces that stand for one
      rw [apply_cons, breakAt_spaces h.space (r.write_space c hc).2, ih, Text.breakAt_cons,
        h.space c s hc]
      simp
    | false =>
      rcases r.write_other c hc with ⟨d, hd, -⟩
      have hwhole : r.apply (c :: s) = d :: r.apply s := by simp [hd]
      have hhere : p (d :: r.apply s) = p (c :: s) := by rw [← hwhole, h.apply]
      rw [hwhole, Text.breakAt_cons, Text.breakAt_cons, hhere, ih]
      split
      · simp [hd]
      · simp [hd]

theorem sees_startsWith {x : Char} {opener : List Char} (hfix : ∀ y ∈ x :: opener, r.Fixes y)
    (hx : isSpace x = false) : r.Sees (Text.startsWith (x :: opener)) := by
  refine ⟨startsWith_apply hfix, ?_⟩
  intro c s hc
  have hne : x ≠ c := by
    rintro rfl
    rw [hx] at hc
    cases hc
  simp [Text.startsWith, Text.after?, hne]

theorem startsWithLetter_eq (s : List Char) : startsWithLetter s = s.head?.any Char.isAlpha := by
  cases s <;> rfl

theorem opensMarkup_apply (s : List Char) : opensMarkup (r.apply s) = opensMarkup s := by
  have hbracket : r.Fixes '<' := r.fixes_of_mark rfl rfl
  have hslash : r.Fixes '/' := r.fixes_of_mark rfl rfl
  rcases s with _ | ⟨c, s⟩
  · rfl
  by_cases hc : c = '<'
  · subst hc
    rw [hbracket.apply_cons]
    rcases s with _ | ⟨d, s⟩
    · rfl
    rcases r.exists_write d with ⟨e, t, hd⟩
    have hmem : e ∈ r.write d := by simp [hd]
    -- only after a slash does a third character count, and a slash is written as itself
    have hthird : (e == '/' && startsWithLetter (t ++ r.apply s))
        = (d == '/' && startsWithLetter s) := by
      have hsame : (e == '/') = (d == '/') := hslash.keeps d e hmem
      rw [hsame]
      by_cases hd' : d = '/'
      · subst hd'
        obtain ⟨-, rfl⟩ : '/' = e ∧ [] = t := by simpa [hslash.1] using hd
        rw [List.nil_append, startsWithLetter_eq, startsWithLetter_eq, keeps_isAlpha.any_head?]
      · rw [beq_false_of_ne hd', Bool.false_and, Bool.false_and]
    have hbang : (e == '!') = (d == '!') := (r.fixes_of_mark rfl rfl).keeps d e hmem
    have hmark : (e == '?') = (d == '?') := (r.fixes_of_mark rfl rfl).keeps d e hmem
    have hletter : e.isAlpha = d.isAlpha := keeps_isAlpha d e hmem
    rw [apply_cons, hd, List.cons_append, opensMarkup_bracket, opensMarkup_bracket, hthird, hbang,
      hmark, hletter]
  · rcases r.exists_write c with ⟨d, t, hd⟩
    have hhead : d ≠ '<' := by
      rintro rfl
      exact hc (hbracket.2 c (by simp [hd]))
    rw [apply_cons, hd, List.cons_append, opensMarkup_of_ne hhead, opensMarkup_of_ne hc]

theorem sees_opensMarkup : r.Sees opensMarkup := by
  refine ⟨opensMarkup_apply, ?_⟩
  intro c s hc
  apply opensMarkup_of_ne
  rintro rfl
  cases hc

theorem sees_atTagBoundary : r.Sees atTagBoundary := by
  have hclose : r.Fixes '>' := r.fixes_of_mark rfl rfl
  constructor
  · intro s
    simp only [atTagBoundary, opensMarkup_apply]
    congr 1
    rw [Bool.eq_iff_iff, beq_iff_eq, beq_iff_eq]
    exact hclose.head?_eq_iff
  · intro c s hc
    have hne : c ≠ '>' := by
      rintro rfl
      cases hc
    have hmarkup : opensMarkup (c :: s) = false := (sees_opensMarkup (r := r)).space c s hc
    simp [atTagBoundary, hmarkup, hne]

/-! ## Names -/

theorem lower_apply {s : List Char} (hs : ∀ c ∈ s, isSpace c = false) :
    Text.lower (r.apply s) = Text.lower s := by
  induction s with
  | nil => rfl
  | cons c s ih =>
    rcases r.write_other c (hs c List.mem_cons_self) with ⟨d, hd, hlower⟩
    have htail := ih fun e he => hs e (List.mem_cons_of_mem c he)
    simp only [Text.lower] at htail ⊢
    simp [hd, hlower, htail]

/-- A name is recognised alike at the start of a text, together with what may follow it. -/
theorem sameIgnoringCase_take_apply {name : List Char} (hname : ∀ c ∈ name, isSpace c = false)
    {f : Option Char → Bool} (hf : ∀ s, f (r.apply s).head? = f s.head?) (s : List Char) :
    (Text.sameIgnoringCase ((r.apply s).take name.length) name
        && f ((r.apply s).drop name.length).head?)
      = (Text.sameIgnoringCase (s.take name.length) name && f (s.drop name.length).head?) := by
  have hcons : ∀ c d (s t : List Char), Text.sameIgnoringCase (c :: s) (d :: t)
      = (c.toLower == d.toLower && Text.sameIgnoringCase s t) := by
    intro c d s t
    rfl
  induction name generalizing s with
  | nil => simp [hf]
  | cons x name ih =>
    have hx : isSpace x = false := hname x List.mem_cons_self
    have hrest := ih fun c hc => hname c (List.mem_cons_of_mem x hc)
    cases s with
    | nil => rfl
    | cons c s =>
      cases hc : isSpace c with
      | true =>
        -- a space ends the comparison on both sides
        rcases r.exists_write c with ⟨d, t, hd⟩
        have hspace : isSpace d = true := (r.write_space c hc).2 d (by simp [hd])
        simp [hd, hcons, beq_toLower_of_isSpace hspace hx, beq_toLower_of_isSpace hc hx]
      | false =>
        rcases r.write_other c hc with ⟨d, hd, hlower⟩
        have htail := hrest s
        simp only [apply_cons, hd, List.length_cons, List.singleton_append, List.take_succ_cons,
          List.drop_succ_cons, hcons, hlower, Bool.and_assoc, htail]

/-! ## From the end -/

/-- Writes every character in the same way, but backwards. -/
def reverse (r : Recoding) : Recoding where
  write c := (r.write c).reverse
  write_space c hc := by simpa using r.write_space c hc
  write_other c hc := by
    rcases r.write_other c hc with ⟨d, hd, hlower⟩
    exact ⟨d, by simp [hd], hlower⟩

theorem reverse_apply (s : List Char) : (r.apply s).reverse = r.reverse.apply s.reverse :=
  List.reverse_flatMap ..

theorem reverse_reverse : r.reverse.reverse = r := by
  simp [reverse]

theorem Keeps.reverse (h : r.Keeps p) : r.reverse.Keeps p := by
  intro c d hd
  exact h c d (List.mem_reverse.1 hd)

/-- Text is trimmed alike if blanks stay blank. -/
theorem Keeps.trim (h : r.Keeps Text.isBlank) (s : List Char) :
    Text.trim (r.apply s) = r.apply (Text.trim s) := by
  rw [Text.trim, Text.trim, Text.trimStart, Text.trimStart, Text.trimEnd, Text.trimEnd, h.dropWhile,
    reverse_apply, h.reverse.dropWhile, reverse_apply, reverse_reverse]

theorem Fixes.reverse (h : r.Fixes x) : r.reverse.Fixes x := by
  refine ⟨by simp [Recoding.reverse, h.1], ?_⟩
  intro c hmem
  exact h.2 c (by simpa [Recoding.reverse] using hmem)

theorem isSuffixOf_apply {closer : List Char} (hfix : ∀ x ∈ closer, r.Fixes x) (s : List Char) :
    closer.isSuffixOf (r.apply s) = closer.isSuffixOf s := by
  have hsuffix : ∀ s, closer.isSuffixOf s = Text.startsWith closer.reverse s.reverse := by
    intro s
    rw [Bool.eq_iff_iff, List.isSuffixOf_iff_suffix, Text.startsWith_iff_prefix,
      List.reverse_prefix]
  have hback : ∀ x ∈ closer.reverse, r.reverse.Fixes x :=
    fun x hx => (hfix x (List.mem_reverse.1 hx)).reverse
  rw [hsuffix, hsuffix, reverse_apply, startsWith_apply hback]

end Recoding

end HtmlLint
