import HtmlLint.Proofs.Layout
import HtmlLint.Proofs.Recoding.Text
import Mathlib.Data.List.Forall2
import Mathlib.Data.List.TakeWhile

/-!
# Recoding start tags

What follows the name of a start tag is read alike before and after a recoding: the same attributes
in the same order, each with its parts recoded, and the same ending. Offsets do change, since space
may be written longer or shorter, and the two texts need not start at the same offset.

* `Recoding.SameAttribute` — the parts of two attributes.
* `Recoding.SamePlace` — the places of two attributes in their tags.
* `Recoding.SameTail` — all that follows the names of two tags.
-/

namespace HtmlLint

namespace Recoding

variable {r : Recoding}

theorem keeps_endsTagName : r.Keeps endsTagName :=
  (keeps_isSpace.or (r.fixes_of_mark rfl rfl).keeps).or (r.fixes_of_mark rfl rfl).keeps

theorem keeps_endsAttributeName : r.Keeps endsAttributeName :=
  keeps_endsTagName.or (r.fixes_of_mark rfl rfl).keeps

theorem keeps_isUnquotedChar : r.Keeps isUnquotedChar :=
  keeps_isSpace.not.and (r.fixes_of_mark rfl rfl).keeps.not

/-! ## Values -/

/-- What a value becomes when all the text is recoded. -/
def value (r : Recoding) (read : ReadValue) : ReadValue :=
  ⟨r.apply read.value, read.quote, r.apply read.raw, read.closed, r.apply read.rest⟩

theorem readQuoted_apply {q : Char} (hq : r.Fixes q) (quote : Quote) (s : List Char) :
    readQuoted q quote (r.apply s) = r.value (readQuoted q quote s) := by
  have hrun : r.Keeps (· != q) := hq.keeps.not
  unfold readQuoted
  rw [hrun.dropWhile, hrun.takeWhile, sees_atTagBoundary.breakAt]
  cases hrest : s.dropWhile (· != q) with
  | nil => simp [value, hq.1]
  | cons c rest =>
    obtain rfl : c = q := dropWhile_ne_cons hrest
    simp [value, hq.1]

theorem readValue_unquoted {s : List Char} (hdouble : s.head? ≠ some '"')
    (hsingle : s.head? ≠ some '\x27') :
    readValue s = ⟨s.takeWhile isUnquotedChar, .unquoted, s.takeWhile isUnquotedChar, true,
      s.dropWhile isUnquotedChar⟩ := by
  unfold readValue
  split
  · exact absurd rfl hdouble
  · exact absurd rfl hsingle
  · rfl

theorem readValue_apply (s : List Char) : readValue (r.apply s) = r.value (readValue s) := by
  have hquote : r.Fixes '"' := r.fixes_of_mark rfl rfl
  have htick : r.Fixes '\x27' := r.fixes_of_mark rfl rfl
  by_cases hdouble : s.head? = some '"'
  · rcases List.head?_eq_some_iff.1 hdouble with ⟨t, rfl⟩
    rw [hquote.apply_cons]
    exact readQuoted_apply hquote .double t
  by_cases hsingle : s.head? = some '\x27'
  · rcases List.head?_eq_some_iff.1 hsingle with ⟨t, rfl⟩
    rw [htick.apply_cons]
    exact readQuoted_apply htick .single t
  have hdouble' : (r.apply s).head? ≠ some '"' := fun h => hdouble (hquote.head?_eq_iff.1 h)
  have hsingle' : (r.apply s).head? ≠ some '\x27' := fun h => hsingle (htick.head?_eq_iff.1 h)
  rw [readValue_unquoted hdouble hsingle, readValue_unquoted hdouble' hsingle',
    keeps_isUnquotedChar.takeWhile, keeps_isUnquotedChar.dropWhile]
  rfl

/-! ## Attributes -/

/-- The parts of `b` are the recoded parts of `a`, and the name of `a` has no space in it. -/
structure SameAttribute (r : Recoding) (a b : Attribute) : Prop where
  name : b.name = r.apply a.name
  value : b.value = r.apply a.value
  quote : b.quote = a.quote
  raw : b.raw = r.apply a.raw
  solid : ∀ c ∈ a.name, isSpace c = false

theorem endsTagName_of_isSpace {c : Char} (h : isSpace c = true) : endsTagName c = true := by
  simp [endsTagName, h]

theorem endsAttributeName_of_isSpace {c : Char} (h : isSpace c = true) :
    endsAttributeName c = true := by
  simp [endsAttributeName, endsTagName_of_isSpace h]

/-- A name that every space ends has no space in it. -/
theorem not_isSpace_of_mem_name {p : Char → Bool} (hp : ∀ {c}, isSpace c = true → p c = true)
    {s : List Char} : ∀ c ∈ s.takeWhile (!p ·), isSpace c = false := by
  intro c hc
  have hname := List.mem_takeWhile_imp hc
  cases hspace : isSpace c with
  | false => rfl
  | true => simp [hp hspace] at hname

theorem readAttribute_bare (offset : Nat) (c : Char) {s : List Char}
    (h : ((s.dropWhile (!endsAttributeName ·)).dropWhile isSpace).head? ≠ some '=') :
    readAttribute offset c s =
      let name := c :: s.takeWhile (!endsAttributeName ·)
      ⟨⟨name, [], .missing, name, .ofText offset name⟩, s.dropWhile (!endsAttributeName ·), []⟩ := by
  unfold readAttribute
  dsimp only
  split
  · next t ht =>
    rw [ht] at h
    exact absurd rfl h
  · rfl

theorem readAttribute_apply (o o' : Nat) {c d : Char} (hc : isSpace c = false)
    (hd : r.write c = [d]) (s : List Char) :
    r.SameAttribute (readAttribute o c s).item (readAttribute o' d (r.apply s)).item
      ∧ (readAttribute o' d (r.apply s)).rest = r.apply (readAttribute o c s).rest := by
  have hsign : r.Fixes '=' := r.fixes_of_mark rfl rfl
  have hname : r.Keeps (!endsAttributeName ·) := keeps_endsAttributeName.not
  have hspace : r.Keeps isSpace := keeps_isSpace
  have hsolid : ∀ e ∈ c :: s.takeWhile (!endsAttributeName ·), isSpace e = false := by
    intro e he
    rcases List.mem_cons.1 he with rfl | he
    · exact hc
    · exact not_isSpace_of_mem_name endsAttributeName_of_isSpace e he
  -- space before the sign does not hide it, however it is written
  have hnext : ((r.apply s).dropWhile (!endsAttributeName ·)).dropWhile isSpace
      = r.apply ((s.dropWhile (!endsAttributeName ·)).dropWhile isSpace) := by
    rw [hname.dropWhile, hspace.dropWhile]
  by_cases hvalue : ((s.dropWhile (!endsAttributeName ·)).dropWhile isSpace).head? = some '='
  · rcases List.head?_eq_some_iff.1 hvalue with ⟨t, ht⟩
    rw [ht, hsign.apply_cons] at hnext
    have hread : readValue ((r.apply t).dropWhile isSpace)
        = r.value (readValue (t.dropWhile isSpace)) := by
      rw [hspace.dropWhile, readValue_apply]
    simp only [readAttribute, ht, hnext, hread]
    refine ⟨⟨?_, rfl, rfl, ?_, hsolid⟩, rfl⟩
    · simp [hd, hname.takeWhile]
    · simp [hd, hname.takeWhile, hname.dropWhile, hspace.takeWhile, hsign.1, value]
  · have hvalue' : (((r.apply s).dropWhile (!endsAttributeName ·)).dropWhile isSpace).head?
        ≠ some '=' := by
      rw [hnext]
      intro h
      exact hvalue (hsign.head?_eq_iff.1 h)
    rw [readAttribute_bare o c hvalue, readAttribute_bare o' d hvalue']
    have hwhole : d :: (r.apply s).takeWhile (!endsAttributeName ·)
        = r.apply (c :: s.takeWhile (!endsAttributeName ·)) := by
      simp [hd, hname.takeWhile]
    exact ⟨⟨hwhole, rfl, rfl, hwhole, hsolid⟩, hname.dropWhile s⟩

/-! ## What follows the name of a tag -/

/-- Attributes `a` of a text `raw` at offset `o` and `b` of the recoded text at offset `o'` are the
same, and the text before `b` is the recoded text before `a`. -/
def SamePlace (r : Recoding) (o o' : Nat) (raw : List Char) (a b : Attribute) : Prop :=
  r.SameAttribute a b ∧ ∃ lead rest, raw = lead ++ (a.raw ++ rest)
    ∧ a.span = .ofText (o + Text.byteLength lead) a.raw
    ∧ b.span = .ofText (o' + Text.byteLength (r.apply lead)) b.raw

theorem SamePlace.prepend {o o' : Nat} {raw : List Char} {a b : Attribute} (gap : List Char)
    (h : r.SamePlace (o + Text.byteLength gap) (o' + Text.byteLength (r.apply gap)) raw a b) :
    r.SamePlace o o' (gap ++ raw) a b := by
  rcases h with ⟨hsame, lead, rest, hraw, hspan, hspan'⟩
  refine ⟨hsame, gap ++ lead, rest, by simp [hraw], ?_, ?_⟩
  · simp [hspan, Nat.add_assoc]
  · simp [hspan', Nat.add_assoc]

/-- The tail `b`, at offset `o'`, is the recoded tail `a`, at offset `o`. -/
structure SameTail (r : Recoding) (o o' : Nat) (a b : TagTail) : Prop where
  attributes : List.Forall₂ (r.SamePlace o o' a.raw) a.attributes b.attributes
  raw : b.raw = r.apply a.raw
  ending : b.ending = a.ending
  rest : b.rest = r.apply a.rest

namespace SameTail

variable {o o' : Nat} {a b : TagTail}

theorem last {raw raw' : List Char} (hraw : raw' = r.apply raw) (ending : TagEnding)
    (s : List Char) : r.SameTail o o' (.last raw ending s) (.last raw' ending (r.apply s)) :=
  ⟨.nil, hraw, rfl, rfl⟩

theorem afterGap (gap : List Char)
    (h : r.SameTail (o + Text.byteLength gap) (o' + Text.byteLength (r.apply gap)) a b) :
    r.SameTail o o' (a.afterGap gap) (b.afterGap (r.apply gap)) := by
  refine ⟨?_, ?_, h.ending, h.rest⟩
  · exact h.attributes.imp fun _ _ hplace => hplace.prepend gap
  · simp [TagTail.afterGap, h.raw]

theorem afterAttribute {read read' : ReadAttribute} (hitem : r.SameAttribute read.item read'.item)
    (hspan : read.item.span = .ofText o read.item.raw)
    (hspan' : read'.item.span = .ofText o' read'.item.raw)
    (h : r.SameTail read.item.span.stop read'.item.span.stop a b) :
    r.SameTail o o' (a.afterAttribute read) (b.afterAttribute read') := by
  have hfirst : r.SamePlace o o' (read.item.raw ++ a.raw) read.item read'.item :=
    ⟨hitem, [], a.raw, rfl, hspan, hspan'⟩
  -- the other attributes stand behind this one on both sides
  have hothers : List.Forall₂ (r.SamePlace o o' (read.item.raw ++ a.raw)) a.attributes
      b.attributes := by
    refine h.attributes.imp fun _ _ hplace => SamePlace.prepend read.item.raw ?_
    rw [hspan, hspan', hitem.raw] at hplace
    exact hplace
  refine ⟨.cons hfirst hothers, ?_, h.ending, h.rest⟩
  simp [TagTail.afterAttribute, h.raw, hitem.raw]

end SameTail

theorem readTagTail_spaces {gap : List Char} (hgap : ∀ c ∈ gap, isSpace c = true) (o : Nat)
    (s : List Char) : readTagTail o (gap ++ s)
      = (readTagTail (o + Text.byteLength gap) s).afterGap gap := by
  induction gap generalizing o with
  | nil => rfl
  | cons c gap ih =>
    have hc : isSpace c = true := hgap c List.mem_cons_self
    have hrest := ih (fun d hd => hgap d (List.mem_cons_of_mem c hd)) (o + 1)
    rw [List.cons_append, readTagTail_space o hc, hrest]
    simp [TagTail.afterGap, utf8Size_of_isSpace hc, Nat.add_assoc]

/-- The tail of a tag is read alike before and after a recoding, wherever the tag stands. -/
theorem readTagTail_apply (o o' : Nat) (s : List Char) :
    r.SameTail o o' (readTagTail o s) (readTagTail o' (r.apply s)) := by
  have hclose : r.Fixes '>' := r.fixes_of_mark rfl rfl
  have hslash : r.Fixes '/' := r.fixes_of_mark rfl rfl
  -- the induction follows the reader on the text that is not recoded
  fun_induction readTagTail o s generalizing o' with
  | case1 o =>
    have hempty : readTagTail o' [] = .last [] .unfinished [] := by rw [readTagTail]
    rw [apply_nil, hempty]
    exact .last rfl .unfinished []
  | case2 o c s hspace ih =>
    have hlength : Text.byteLength [c] = 1 := by simp [utf8Size_of_isSpace hspace]
    have hgap : r.apply [c] = r.write c := by simp
    rw [apply_cons, readTagTail_spaces (r.write_space c hspace).2, ← hgap]
    apply SameTail.afterGap
    rw [hlength]
    exact ih _
  | case3 o s =>
    rw [hclose.apply_cons, readTagTail_close]
    exact .last (apply_eq_self (by simpa using hclose)).symm .closed s
  | case4 o rest =>
    rw [hslash.apply_cons, hclose.apply_cons, readTagTail_selfClose]
    refine .last (apply_eq_self ?_).symm .selfClosed rest
    simp [hslash, hclose]
  | case5 o s hnext _ _ ih =>
    have hhead : (r.apply s).head? ≠ some '>' := by
      intro h
      rcases List.head?_eq_some_iff.1 (hclose.head?_eq_iff.1 h) with ⟨t, ht⟩
      exact hnext t ht
    have hgap : r.apply ['/'] = ['/'] := by simp [hslash.1]
    rw [hslash.apply_cons, readTagTail_slash o' hhead]
    have hrest : r.SameTail o o' ((readTagTail (o + 1) s).afterGap ['/'])
        ((readTagTail (o' + Text.byteLength (r.apply ['/'])) (r.apply s)).afterGap
          (r.apply ['/'])) := .afterGap ['/'] (ih _)
    rw [hgap] at hrest
    exact hrest
  | case6 o c s _ _ _ hmarkup =>
    rw [readTagTail_markup o' ((opensMarkup_apply _).trans hmarkup)]
    exact .last rfl .cut (c :: s)
  | case7 o c s hspace hclosed hslashed hmarkup read ih =>
    have hc : isSpace c = false := by simpa using hspace
    rcases r.write_other c hc with ⟨d, hd, -⟩
    have hwhole : r.apply (c :: s) = d :: r.apply s := by simp [hd]
    have hends : endsTagName d = false := by
      have hsame : endsTagName d = endsTagName c :=
        keeps_endsTagName (r := r) c d (by simp [hd])
      rw [hsame]
      simp [endsTagName, hc, hclosed, hslashed]
    have hopens : opensMarkup (d :: r.apply s) = false := by
      rw [← hwhole, opensMarkup_apply]
      simpa using hmarkup
    -- the attribute ends at different offsets, so the induction holds for any second offset
    rcases readAttribute_apply o o' hc hd s with ⟨hitem, hrest⟩
    rw [hwhole, readTagTail_attribute o' hends hopens, hrest]
    exact .afterAttribute hitem (readAttribute_span o c s) (readAttribute_span o' d _) (ih _)

end Recoding

end HtmlLint
