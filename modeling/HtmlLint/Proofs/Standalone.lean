import HtmlLint.Proofs.Reading
import HtmlLint.Proofs.Recoding.Tags
import HtmlLint.Proofs.Rendering
import HtmlLint.Proofs.Shifting
import HtmlLint.Proofs.TagParts

/-!
# Every token stands on its own text

The readers look ahead: a text goes on until markup opens, a quote is closed only if the same quote
comes again somewhere in the document, a tag is cut where other markup opens. None of this is lost
when the document is cut off at the end of a token. What made the reader stop is either part of the
token or is replaced by the end of the document, and nothing that it passed over becomes a reason to
stop.

* `Text.Lasting` — a property of texts that more text at the end does not take away.
* `TagTail.Alone`, `Lexeme.Alone` — what a reader gives when nothing comes after it.
* `scan_raw_of_mem_scan` — the text of a token, scanned as a document, gives the token again.

The content of a raw element is the exception: outside of its element it is scanned as markup.
-/

namespace HtmlLint

namespace Text

/-! ## Cuts in a document that ends earlier -/

/-- More text at the end does not take the property away. -/
def Lasting (p : List Char → Bool) : Prop :=
  ∀ s t, p s = true → p (s ++ t) = true

/-- A text that ends earlier is cut at the same place, if there is still a reason for the cut or
nothing comes after it. -/
theorem Lasting.breakAt_eq {p : List Char → Bool} (hp : Lasting p) {s t : List Char}
    (hcut : t <+: (breakAt p s).2) (ht : t = [] ∨ p t = true) :
    breakAt p ((breakAt p s).1 ++ t) = ((breakAt p s).1, t) := by
  rcases hcut with ⟨rest, hrest⟩
  refine Text.breakAt_eq ?_ ht
  rintro b ⟨a, hsplit⟩ hne
  -- a reason to cut earlier would have been one in the longer text
  have hnone := breakAt_fst hsplit.symm hne
  rw [← hrest, ← List.append_assoc] at hnone
  rw [Bool.eq_false_iff]
  intro hearlier
  rw [hp _ rest hearlier] at hnone
  cases hnone

theorem lasting_startsWith (opener : List Char) : Lasting (startsWith opener) := by
  intro s t h
  rw [startsWith_iff] at h ⊢
  rcases h with ⟨rest, rfl⟩
  exact ⟨rest ++ t, List.append_assoc ..⟩

/-- What is left after a cut may be cut off later. -/
theorem prefix_of_breakAt {p : List Char → Bool} {s t : List Char} (ht : t <+: (breakAt p s).2) :
    (breakAt p s).1 ++ t <+: s := by
  conv_rhs => rw [← breakAt_append p s]
  exact (List.prefix_append_right_inj _).2 ht

theorem prefix_of_run {p : Char → Bool} {s t : List Char} (ht : t <+: s.dropWhile p) :
    s.takeWhile p ++ t <+: s := by
  conv_rhs => rw [← List.takeWhile_append_dropWhile (p := p) (l := s)]
  exact (List.prefix_append_right_inj _).2 ht

/-- A run of characters ends where it did, if what follows it is cut off later. -/
theorem run_of_prefix {p : Char → Bool} {s t : List Char} (ht : t <+: s.dropWhile p) :
    (s.takeWhile p ++ t).takeWhile p = s.takeWhile p ∧ (s.takeWhile p ++ t).dropWhile p = t := by
  have hrun : ∀ c ∈ s.takeWhile p, p c = true := fun c hc => List.mem_takeWhile_imp hc
  have hstop : ∀ c ∈ t.head?, p c = false := by
    intro c hc
    rcases List.head?_eq_some_iff.1 hc with ⟨u, rfl⟩
    rcases ht with ⟨rest, hrest⟩
    have hnot := List.head?_dropWhile_not p s
    rwa [← hrest] at hnot
  exact ⟨takeWhile_eq hrun hstop, dropWhile_eq hrun hstop⟩

end Text

/-! ## Where markup opens -/

theorem lasting_opensMarkup : Text.Lasting opensMarkup := by
  intro s t h
  rcases exists_bracket_of_opensMarkup h with ⟨_ | ⟨d, s⟩, rfl⟩
  · cases h
  · have hletter : startsWithLetter s = true → startsWithLetter (s ++ t) = true := by
      intro hs
      cases s with
      | nil => cases hs
      | cons c s => exact hs
    simp only [List.cons_append, opensMarkup_bracket, Bool.or_eq_true, Bool.and_eq_true] at h ⊢
    rcases h with (hmark | ⟨hslash, hs⟩) | halpha
    · exact .inl (.inl hmark)
    · exact .inl (.inr ⟨hslash, hletter hs⟩)
    · exact .inr halpha

theorem lasting_atTagBoundary : Text.Lasting atTagBoundary := by
  intro s t h
  simp only [atTagBoundary, Bool.or_eq_true, beq_iff_eq] at h ⊢
  rcases h with hclose | hopens
  · exact .inl (by simp [List.head?_append, hclose])
  · exact .inr (lasting_opensMarkup s t hopens)

/-- Markup opens with `<!`, or the character after its `<` tells its form. -/
theorem opening?_cases {s rest : List Char} {op : Opening} (h : opening? s = some (op, rest)) :
    (∃ t, s = '<' :: '!' :: t ∧ Opening.afterBang t = (op, rest))
      ∨ (op = .instruction ∧ s = '<' :: rest ∧ rest.head? = some '?')
      ∨ (op = .endTag ∧ s = '<' :: '/' :: rest ∧ startsWithLetter rest = true)
      ∨ (op = .startTag ∧ s = '<' :: rest ∧ startsWithLetter rest = true) := by
  unfold opening? at h
  split at h
  · next c t =>
    by_cases hbang : c = '!'
    · exact .inl ⟨t, by rw [hbang], by simpa [hbang] using h⟩
    by_cases hmark : c = '?'
    · obtain ⟨rfl, rfl⟩ : Opening.instruction = op ∧ c :: t = rest := by simpa [hmark] using h
      exact .inr (.inl ⟨rfl, rfl, by rw [hmark]; rfl⟩)
    by_cases hslash : c = '/'
    · obtain ⟨hletter, rfl, rfl⟩ : startsWithLetter t = true ∧ Opening.endTag = op ∧ t = rest := by
        simpa [hslash] using h
      exact .inr (.inr (.inl ⟨rfl, by rw [hslash], hletter⟩))
    · obtain ⟨hletter, rfl, rfl⟩ : c.isAlpha = true ∧ Opening.startTag = op ∧ c :: t = rest := by
        simpa [hbang, hmark, hslash] using h
      exact .inr (.inr (.inr ⟨rfl, rfl, hletter⟩))
  · cases h

/-- The forms that start with `<!` are told apart by what stands in their openings. -/
theorem afterBang_of_prefix {t rest v : List Char} {op : Opening}
    (h : Opening.afterBang t = (op, rest)) (hv : v <+: rest) :
    ∃ u, op.text ++ v = '<' :: '!' :: u ∧ Opening.afterBang u = (op, v) := by
  unfold Opening.afterBang at h
  split at h
  · cases h
    exact ⟨'-' :: '-' :: v, rfl, by simp [Opening.afterBang, Text.after?]⟩
  · next hcomment =>
    split at h
    · cases h
      refine ⟨'[' :: 'C' :: 'D' :: 'A' :: 'T' :: 'A' :: '[' :: v, rfl, ?_⟩
      simp [Opening.afterBang, Text.after?]
    · next hcdata =>
      split at h
      · next hconditional =>
        cases h
        have hlonger : '[' :: v <+: t := by
          rw [Text.after?_eq_some_iff.1 hconditional]
          exact List.cons_prefix_cons.2 ⟨rfl, hv⟩
        have hnot : Text.after? ['[', 'C', 'D', 'A', 'T', 'A', '['] ('[' :: v) = none := by
          rw [Text.after?_eq_none_iff] at hcdata ⊢
          exact fun hlead => hcdata (hlead.trans hlonger)
        refine ⟨'[' :: v, rfl, ?_⟩
        unfold Opening.afterBang
        rw [hnot]
        simp [Text.after?]
      · next hconditional =>
        cases h
        rw [Text.after?_eq_none_iff] at hcomment hcdata hconditional
        refine ⟨v, rfl, ?_⟩
        unfold Opening.afterBang
        rw [Text.after?_eq_none_iff.2 fun hlead => hcomment (hlead.trans hv),
          Text.after?_eq_none_iff.2 fun hlead => hcdata (hlead.trans hv),
          Text.after?_eq_none_iff.2 fun hlead => hconditional (hlead.trans hv)]

/-- Markup that is cut off after its opening still opens in the same form, unless only the `<` is
left of it. -/
theorem opening?_of_prefix {s rest v : List Char} {op : Opening} (h : opening? s = some (op, rest))
    (hv : v <+: rest) (hempty : v = [] → rest = []) : opening? (op.text ++ v) = some (op, v) := by
  have hhead : v.head? = rest.head? := by
    rcases hv with ⟨u, rfl⟩
    cases v with
    | nil => rw [hempty rfl]
    | cons c v => rfl
  have hletter : startsWithLetter v = startsWithLetter rest := by
    cases v <;> cases rest <;> simp_all [startsWithLetter]
  rcases opening?_cases h with ⟨t, -, hbang⟩ | ⟨rfl, -, hmark⟩ | ⟨rfl, -, hstart⟩ | ⟨rfl, -, hstart⟩
  · rcases afterBang_of_prefix hbang hv with ⟨u, hu, hafter⟩
    simp [hu, opening?, hafter]
  · rw [← hhead] at hmark
    rcases List.head?_eq_some_iff.1 hmark with ⟨u, rfl⟩
    simp [Opening.text, opening?]
  · rw [← hletter] at hstart
    simp [Opening.text, opening?, hstart]
  · rw [← hletter] at hstart
    cases v with
    | nil => cases hstart
    | cons c v => exact opening?_letter hstart v

/-! ## Markup around data -/

/-- Without its closing text, data runs to the end of the document. -/
theorem readEnclosed_rest {close s : List Char} (h : (readEnclosed close s).close = []) :
    (readEnclosed close s).rest = [] ∨ close = [] := by
  unfold readEnclosed at h ⊢
  dsimp only at h ⊢
  split at h
  · exact .inr h
  · next hnone =>
    left
    rcases Text.breakAt_snd (Text.startsWith close) s with hend | hstarts
    · exact hend
    · rw [Text.startsWith, hnone] at hstarts
      cases hstarts

theorem readEnclosed_alone {close : List Char} (hne : close ≠ []) (s : List Char) :
    readEnclosed close ((readEnclosed close s).data ++ (readEnclosed close s).close)
      = ⟨(readEnclosed close s).data, (readEnclosed close s).close, []⟩ := by
  have hlasting := Text.lasting_startsWith close
  cases hafter : Text.after? close (Text.breakAt (Text.startsWith close) s).2 with
  | some rest =>
    have hread : readEnclosed close s
        = ⟨(Text.breakAt (Text.startsWith close) s).1, close, rest⟩ := by
      simp only [readEnclosed, hafter]
    have hlead : close <+: (Text.breakAt (Text.startsWith close) s).2 := by
      rw [Text.after?_eq_some_iff.1 hafter]
      exact List.prefix_append close rest
    have hstarts : Text.startsWith close close = true :=
      Text.startsWith_iff_prefix.2 List.prefix_rfl
    have hself : Text.after? close close = some [] := Text.after?_eq_some_iff.2 (by simp)
    rw [hread]
    simp only [readEnclosed, hlasting.breakAt_eq hlead (.inr hstarts), hself]
  | none =>
    have hread : readEnclosed close s
        = ⟨(Text.breakAt (Text.startsWith close) s).1, [],
          (Text.breakAt (Text.startsWith close) s).2⟩ := by
      simp only [readEnclosed, hafter]
    have hnever : Text.after? close [] = none := by
      rw [Text.after?_eq_none_iff, List.prefix_nil]
      exact hne
    rw [hread]
    simp only [readEnclosed, hlasting.breakAt_eq List.nil_prefix (.inl rfl), hnever]

theorem readComment_alone (s : List Char) :
    readComment ((readComment s).data ++ (readComment s).close)
        = ⟨(readComment s).data, (readComment s).close, []⟩
      ∧ ((readComment s).close = [] → (readComment s).rest = []) := by
  by_cases hclose : ['>'] <+: s
  · rcases hclose with ⟨rest, rfl⟩
    exact ⟨rfl, nofun⟩
  by_cases hdash : ['-', '>'] <+: s
  · rcases hdash with ⟨rest, rfl⟩
    exact ⟨rfl, nofun⟩
  rw [Canonical.readComment_eq hclose hdash]
  -- what does not close at once does not do so when it is cut off later
  have hlead : (readEnclosed ['-', '-', '>'] s).data ++ (readEnclosed ['-', '-', '>'] s).close
      <+: s := ⟨_, by rw [List.append_assoc]; exact readEnclosed_append ['-', '-', '>'] s⟩
  rw [Canonical.readComment_eq (fun h => hclose (h.trans hlead))
    (fun h => hdash (h.trans hlead)), readEnclosed_alone (by decide)]
  exact ⟨rfl, fun h => (readEnclosed_rest h).resolve_right (by decide)⟩

/-! ## Attributes -/

theorem head?_of_leading {x s : List Char} (hx : x <+: s) {c : Char} (hc : x.head? = some c) :
    s.head? = some c := by
  rw [← List.singleton_prefix_iff_head?_eq_some] at hc ⊢
  exact hc.trans hx

theorem head?_dropWhile_of_leading {p : Char → Bool} {x s : List Char} (hx : x <+: s) {c : Char}
    (hc : (x.dropWhile p).head? = some c) : (s.dropWhile p).head? = some c := by
  rcases hx with ⟨y, rfl⟩
  rcases List.head?_eq_some_iff.1 hc with ⟨t, ht⟩
  simp [List.dropWhile_append, ht]

/-- After a quoted value the document may be cut off anywhere, but after a value without its closing
quote only at once or at the `>` that ends the tag. -/
theorem readQuoted_of_prefix {q : Char} {quote : Quote} {s x : List Char}
    (hx : x <+: (readQuoted q quote s).rest)
    (hmarkup : opensMarkup (readQuoted q quote s).rest = true → x = []) :
    readQuoted q quote ((readQuoted q quote s).raw.tail ++ x)
      = { readQuoted q quote s with rest := x } := by
  cases hdrop : s.dropWhile (· != q) with
  | cons c rest =>
    have hread : readQuoted q quote s = ⟨s.takeWhile (· != q), quote,
        q :: s.takeWhile (· != q) ++ [q], true, rest⟩ := by
      simp only [readQuoted, hdrop]
    have hq : q ∉ s.takeWhile (· != q) := by
      intro hmem
      have hne := List.mem_takeWhile_imp hmem
      simp at hne
    rw [hread]
    simpa using Canonical.readQuoted_eq quote hq
  | nil =>
    have hread : readQuoted q quote s = ⟨(Text.breakAt atTagBoundary s).1, quote,
        q :: (Text.breakAt atTagBoundary s).1, false, (Text.breakAt atTagBoundary s).2⟩ := by
      simp only [readQuoted, hdrop]
    rw [hread] at hx hmarkup ⊢
    have hboundary : x = [] ∨ atTagBoundary x = true := by
      cases x with
      | nil => exact .inl rfl
      | cons c x =>
        have hstays : opensMarkup (Text.breakAt atTagBoundary s).2 = false := by
          rw [Bool.eq_false_iff]
          intro hopens
          cases hmarkup hopens
        rcases Text.breakAt_snd atTagBoundary s with hend | hstop
        · rw [hend, List.prefix_nil] at hx
          cases hx
        · have hclose : (Text.breakAt atTagBoundary s).2.head? = some '>' := by
            simpa [atTagBoundary, hstays] using hstop
          rw [head?_of_leading hx rfl] at hclose
          exact .inr (by simp [atTagBoundary, Option.some.inj hclose])
    -- the quote does not come again in the longer text
    have hnever : ((Text.breakAt atTagBoundary s).1 ++ x).dropWhile (· != q) = [] := by
      rw [List.dropWhile_eq_nil_iff] at hdrop ⊢
      intro c hc
      exact hdrop c ((Text.prefix_of_breakAt hx).subset hc)
    simp only [readQuoted, List.tail_cons, hnever,
      lasting_atTagBoundary.breakAt_eq hx hboundary]

theorem readValue_of_prefix {s x : List Char} (hx : x <+: (readValue s).rest)
    (hmarkup : opensMarkup (readValue s).rest = true → x = []) :
    readValue ((readValue s).raw ++ x) = { readValue s with rest := x } := by
  have hquoted : ∀ q quote t, readValue (q :: t) = readQuoted q quote t →
      (∀ u, readValue (q :: u) = readQuoted q quote u) →
      x <+: (readValue (q :: t)).rest →
      (opensMarkup (readValue (q :: t)).rest = true → x = []) →
      readValue ((readValue (q :: t)).raw ++ x) = { readValue (q :: t) with rest := x } := by
    intro q quote t hread hreads hx hmarkup
    have hraw : (readQuoted q quote t).raw = q :: (readQuoted q quote t).raw.tail := by
      unfold readQuoted
      split <;> rfl
    rw [hread] at hx hmarkup ⊢
    rw [hraw, List.cons_append, hreads, readQuoted_of_prefix hx hmarkup]
  by_cases hdouble : s.head? = some '"'
  · rcases List.head?_eq_some_iff.1 hdouble with ⟨t, rfl⟩
    exact hquoted '"' .double t rfl (fun _ => rfl) hx hmarkup
  by_cases hsingle : s.head? = some '\x27'
  · rcases List.head?_eq_some_iff.1 hsingle with ⟨t, rfl⟩
    exact hquoted '\x27' .single t rfl (fun _ => rfl) hx hmarkup
  have hread := Recoding.readValue_unquoted hdouble hsingle
  rw [hread] at hx ⊢
  dsimp only at hx ⊢
  have hlead := Text.prefix_of_run hx
  rcases Text.run_of_prefix hx with ⟨htake, hdrop⟩
  rw [Recoding.readValue_unquoted (fun h => hdouble (head?_of_leading hlead h))
    (fun h => hsingle (head?_of_leading hlead h)), htake, hdrop]

theorem readAttribute_of_prefix {o : Nat} {c : Char} {s x : List Char}
    (hx : x <+: (readAttribute o c s).rest)
    (hmarkup : opensMarkup (readAttribute o c s).rest = true → x = []) :
    (readAttribute o c ((readAttribute o c s).item.raw.tail ++ x)).item = (readAttribute o c s).item
      ∧ (readAttribute o c ((readAttribute o c s).item.raw.tail ++ x)).rest = x := by
  by_cases hvalue : ((s.dropWhile (!endsAttributeName ·)).dropWhile isSpace).head? = some '='
  · rcases List.head?_eq_some_iff.1 hvalue with ⟨t, ht⟩
    have hrest : (readAttribute o c s).rest = (readValue (t.dropWhile isSpace)).rest := by
      simp only [readAttribute, ht]
    rw [hrest] at hx hmarkup
    have hread := readValue_of_prefix hx hmarkup
    -- the parts of the attribute one after the other, each cut off where the next one ends
    have hbody : (readValue (t.dropWhile isSpace)).raw ++ x <+: t.dropWhile isSpace := by
      rcases hx with ⟨y, hy⟩
      exact ⟨y, by rw [List.append_assoc, hy, readValue_append]⟩
    have hsign : '=' :: (t.takeWhile isSpace ++ ((readValue (t.dropWhile isSpace)).raw ++ x))
        <+: (s.dropWhile (!endsAttributeName ·)).dropWhile isSpace := by
      rw [ht]
      exact List.cons_prefix_cons.2 ⟨rfl, Text.prefix_of_run hbody⟩
    have hpad := Text.run_of_prefix hbody
    have hgap := Text.run_of_prefix hsign
    have hname := Text.run_of_prefix (Text.prefix_of_run hsign)
    have htext : (readAttribute o c s).item.raw.tail ++ x
        = s.takeWhile (!endsAttributeName ·)
          ++ ((s.dropWhile (!endsAttributeName ·)).takeWhile isSpace
            ++ '=' :: (t.takeWhile isSpace ++ ((readValue (t.dropWhile isSpace)).raw ++ x))) := by
      simp [readAttribute, ht]
    rw [htext]
    simp only [readAttribute, hname, hgap, hpad, hread, ht]
    exact ⟨trivial, trivial⟩
  · have hread := Recoding.readAttribute_bare o c hvalue
    rw [hread] at hx ⊢
    dsimp only [List.tail_cons] at hx ⊢
    rcases Text.run_of_prefix hx with ⟨htake, hdrop⟩
    have hnone : (((s.takeWhile (!endsAttributeName ·) ++ x).dropWhile
        (!endsAttributeName ·)).dropWhile isSpace).head? ≠ some '=' := by
      rw [hdrop]
      exact fun h => hvalue (head?_dropWhile_of_leading hx h)
    rw [Recoding.readAttribute_bare o c hnone, htake, hdrop]
    exact ⟨rfl, rfl⟩

/-! ## Start tags -/

/-- The tail `alone` is `tail` in a document that ends with it. -/
structure TagTail.Alone (tail alone : TagTail) : Prop where
  attributes : alone.attributes = tail.attributes
  raw : alone.raw = tail.raw
  selfClosed : (alone.ending == .selfClosed) = (tail.ending == .selfClosed)
  rest : alone.rest = []

namespace TagTail.Alone

variable {tail alone : TagTail}

theorem afterGap (gap : List Char) (h : tail.Alone alone) :
    (tail.afterGap gap).Alone (alone.afterGap gap) :=
  ⟨h.attributes, congrArg (gap ++ ·) h.raw, h.selfClosed, h.rest⟩

theorem afterAttribute {read again : ReadAttribute} (hitem : again.item = read.item)
    (h : tail.Alone alone) : (tail.afterAttribute read).Alone (alone.afterAttribute again) := by
  refine ⟨?_, ?_, h.selfClosed, h.rest⟩
  · simp only [TagTail.afterAttribute, hitem, h.attributes]
  · simp only [TagTail.afterAttribute, hitem, h.raw]

end TagTail.Alone

theorem readTagTail_alone (o : Nat) (s : List Char) :
    (readTagTail o s).Alone (readTagTail o (readTagTail o s).raw) := by
  have hempty : ∀ o, readTagTail o [] = .last [] .unfinished [] := by
    intro o
    rw [readTagTail]
  fun_induction readTagTail o s with
  | case1 o =>
    rw [TagTail.last, hempty]
    exact ⟨rfl, rfl, rfl, rfl⟩
  | case2 o c s hspace ih =>
    have hshape : ((readTagTail (o + 1) s).afterGap [c]).raw
        = c :: (readTagTail (o + 1) s).raw := rfl
    rw [hshape, readTagTail_space o hspace]
    exact ih.afterGap [c]
  | case3 o s =>
    rw [TagTail.last, readTagTail_close]
    exact ⟨rfl, rfl, rfl, rfl⟩
  | case4 o rest =>
    rw [TagTail.last, readTagTail_selfClose]
    exact ⟨rfl, rfl, rfl, rfl⟩
  | case5 o s hnext _ _ ih =>
    have hshape : ((readTagTail (o + 1) s).afterGap ['/']).raw
        = '/' :: (readTagTail (o + 1) s).raw := rfl
    have hhead : (readTagTail (o + 1) s).raw.head? ≠ some '>' := by
      intro h
      have hlead : (readTagTail (o + 1) s).raw <+: s := ⟨_, readTagTail_append (o + 1) s⟩
      rcases List.head?_eq_some_iff.1 (head?_of_leading hlead h) with ⟨t, ht⟩
      exact hnext t ht
    rw [hshape, readTagTail_slash o hhead]
    exact ih.afterGap ['/']
  | case6 o c s _ _ _ hmarkup =>
    -- cut by markup in the document, the tag is unfinished by itself
    rw [TagTail.last, hempty]
    exact ⟨rfl, rfl, rfl, rfl⟩
  | case7 o c s hspace hclosed hslashed hmarkup read ih =>
    have hends : endsTagName c = false := by simp [endsTagName, hspace, hclosed, hslashed]
    have hwhole := readAttribute_append o c s
    have hraw : read.item.raw = c :: read.item.raw.tail := by
      have hne := readAttribute_raw_ne_nil o c s
      rcases List.exists_cons_of_ne_nil hne with ⟨d, w, hw⟩
      rw [hw] at hwhole
      rw [show read.item.raw = d :: w from hw, (List.cons.inj hwhole).1]
      rfl
    have htail := readTagTail_append read.item.span.stop read.rest
    have hagain := readAttribute_of_prefix (o := o) (c := c) (s := s)
      (x := (readTagTail read.item.span.stop read.rest).raw) ⟨_, htail⟩ (by
        intro hopens
        rw [readTagTail_markup _ hopens]
        rfl)
    have hopens : opensMarkup (c :: (read.item.raw.tail
        ++ (readTagTail read.item.span.stop read.rest).raw)) = false := by
      rw [Bool.eq_false_iff]
      intro hopens
      have hlonger := lasting_opensMarkup _ (readTagTail read.item.span.stop read.rest).rest hopens
      rw [← List.cons_append, ← hraw, List.append_assoc, htail, hwhole] at hlonger
      exact hmarkup hlonger
    have hshape : ((readTagTail read.item.span.stop read.rest).afterAttribute read).raw
        = c :: (read.item.raw.tail ++ (readTagTail read.item.span.stop read.rest).raw) := by
      rw [← List.cons_append, ← hraw]
      rfl
    rw [hshape, readTagTail_attribute o hends hopens, hagain.1, hagain.2]
    exact ih.afterAttribute hagain.1

/-! ## Tokens -/

/-- The lexeme `alone` is `read` in a document that ends with it. Notices are left out: a tag that
is cut by markup is unfinished by itself. -/
structure Lexeme.Alone (read alone : Lexeme) : Prop where
  kind : alone.kind = read.kind
  raw : alone.raw = read.raw
  rest : alone.rest = []

theorem readStartTag_alone {o : Nat} {s v : List Char}
    (hv : (readStartTag o s).raw = Opening.startTag.text ++ v) :
    (readStartTag o s).Alone (readStartTag o v) := by
  have htail := readTagTail_append (o + 1 + Text.byteLength (s.takeWhile (!endsTagName ·)))
    (s.dropWhile (!endsTagName ·))
  have halone := readTagTail_alone (o + 1 + Text.byteLength (s.takeWhile (!endsTagName ·)))
    (s.dropWhile (!endsTagName ·))
  obtain rfl : s.takeWhile (!endsTagName ·)
      ++ (readTagTail (o + 1 + Text.byteLength (s.takeWhile (!endsTagName ·)))
        (s.dropWhile (!endsTagName ·))).raw = v := List.append_cancel_left hv
  rcases Text.run_of_prefix ⟨_, htail⟩ with ⟨htake, hdrop⟩
  refine ⟨?_, ?_, ?_⟩
  · simp only [readStartTag, htake, hdrop, halone.attributes, halone.selfClosed]
  · simp only [readStartTag, htake, hdrop, halone.raw]
  · simp only [readStartTag, htake, hdrop, halone.rest]

theorem readEndTag_alone {o : Nat} {s v : List Char}
    (hv : (readEndTag o s).raw = Opening.endTag.text ++ v) :
    (readEndTag o s).Alone (readEndTag o v) := by
  rcases readEndTag_cases o s with ⟨hform, hclose⟩ | ⟨hform, -⟩
  · rw [hform, List.append_assoc, List.append_assoc] at hv
    obtain rfl := List.append_cancel_left hv
    have hstop : ['>'] <+: (Text.breakAt atTagBoundary (s.dropWhile (!endsTagName ·))).2 :=
      ⟨_, hclose.symm⟩
    have hbreak := lasting_atTagBoundary.breakAt_eq hstop (.inr rfl)
    rcases Text.run_of_prefix (Text.prefix_of_breakAt hstop) with ⟨htake, hdrop⟩
    rw [hform]
    simp only [readEndTag, htake, hdrop, hbreak]
    exact ⟨rfl, rfl, rfl⟩
  · rw [hform] at hv
    obtain rfl := List.append_cancel_left hv
    have hbreak := lasting_atTagBoundary.breakAt_eq
      (s := s.dropWhile (!endsTagName ·)) List.nil_prefix (.inl rfl)
    rw [List.append_nil] at hbreak
    have hsplit := Text.breakAt_append atTagBoundary (s.dropWhile (!endsTagName ·))
    rcases Text.run_of_prefix ⟨_, hsplit⟩ with ⟨htake, hdrop⟩
    rw [hform]
    simp only [readEndTag, htake, hdrop, hbreak]
    exact ⟨rfl, rfl, rfl⟩

/-- Data that is read again between its delimiters gives the same token. -/
theorem Enclosed.lexeme_alone {read : Enclosed} {again : List Char → Enclosed}
    (hagain : again (read.data ++ read.close) = ⟨read.data, read.close, []⟩) (op : Opening)
    (kind : List Char → Token.Kind) (unclosed : Notice) {v : List Char}
    (hv : (read.lexeme op kind unclosed).raw = op.text ++ v) :
    (read.lexeme op kind unclosed).Alone ((again v).lexeme op kind unclosed) := by
  obtain rfl : read.data ++ read.close = v := List.append_cancel_left hv
  rw [hagain]
  exact ⟨rfl, rfl, rfl⟩

theorem readMarkup_alone {o : Nat} {op : Opening} {s v : List Char}
    (hv : (readMarkup o op s).raw = op.text ++ v) :
    (readMarkup o op s).Alone (readMarkup o op v) := by
  cases op with
  | startTag => exact readStartTag_alone hv
  | endTag => exact readEndTag_alone hv
  | comment => exact Enclosed.lexeme_alone (readComment_alone s).1 _ _ _ hv
  | _ => exact Enclosed.lexeme_alone (readEnclosed_alone (by decide) s) _ _ _ hv

/-- Data that is empty and not closed is at the end of the document. -/
theorem Enclosed.rest_eq_nil {read : Enclosed} (hend : read.close = [] → read.rest = [])
    {op : Opening} {kind : List Char → Token.Kind} {unclosed : Notice}
    (hraw : (read.lexeme op kind unclosed).raw = op.text ++ []) :
    (read.lexeme op kind unclosed).rest = [] :=
  hend (List.append_eq_nil_iff.1 (List.append_cancel_left hraw)).2

/-- A tag is opened by a `<` or `</` before a letter. -/
theorem startsWithLetter_of_opening? {s rest : List Char} {op : Opening}
    (h : opening? s = some (op, rest)) (hop : op = .startTag ∨ op = .endTag) :
    startsWithLetter rest = true := by
  rcases opening?_cases h with ⟨t, -, hbang⟩ | ⟨rfl, -⟩ | ⟨-, -, hletter⟩ | ⟨-, -, hletter⟩
  · unfold Opening.afterBang at hbang
    grind
  · rcases hop with hop | hop <;> cases hop
  · exact hletter
  · exact hletter

/-- The name of a tag starts with the letter that its text starts with. -/
theorem startsWithLetter_takeWhile {s : List Char} (h : startsWithLetter s = true) :
    startsWithLetter (s.takeWhile (!endsTagName ·)) = true := by
  cases s with
  | nil => cases h
  | cons c s =>
    rw [List.takeWhile_cons_of_pos (by simp [endsTagName_of_isAlpha h])]
    exact h

theorem takeWhile_tagName_ne_nil {s : List Char} (h : startsWithLetter s = true) :
    s.takeWhile (!endsTagName ·) ≠ [] := by
  intro hnil
  have hletter := startsWithLetter_takeWhile h
  rw [hnil] at hletter
  cases hletter

/-- Where nothing but an opening is read, nothing else is left. -/
theorem readMarkup_rest_of_bare {o : Nat} {op : Opening} {s rest : List Char}
    (hopening : opening? s = some (op, rest)) (hraw : (readMarkup o op rest).raw = op.text ++ []) :
    rest = [] := by
  have hletter := startsWithLetter_of_opening? hopening
  have hleft : (readMarkup o op rest).rest = [] := by
    cases op with
    | startTag =>
      have hname := (List.append_eq_nil_iff.1 (List.append_cancel_left hraw)).1
      exact absurd hname (takeWhile_tagName_ne_nil (hletter (.inl rfl)))
    | endTag =>
      have hname : rest.takeWhile (!endsTagName ·) = [] := by
        rcases readEndTag_cases o rest with ⟨hform, -⟩ | ⟨hform, -⟩
        · simp [readMarkup, hform] at hraw
        · rw [readMarkup, hform] at hraw
          exact (List.append_eq_nil_iff.1 (List.append_cancel_left hraw)).1
      exact absurd hname (takeWhile_tagName_ne_nil (hletter (.inr rfl)))
    | comment => exact Enclosed.rest_eq_nil (readComment_alone rest).2 hraw
    | _ =>
      exact Enclosed.rest_eq_nil (fun h => (readEnclosed_rest h).resolve_right (by decide)) hraw
  have hwhole := readMarkup_append o op rest
  rw [hraw, hleft, List.append_nil, List.append_nil] at hwhole
  exact List.append_right_eq_self.1 hwhole.symm

/-- What is read of a text is read again from what was taken of it. -/
theorem readToken_alone (o : Nat) (s : List Char) :
    (readToken o s).Alone (readToken o (readToken o s).raw) := by
  cases hopening : opening? s with
  | some found =>
    rcases found with ⟨op, rest⟩
    have hread : readToken o s = readMarkup o op rest := by rw [readToken, hopening]
    rcases readMarkup_raw o op rest with ⟨v, hv⟩
    have hlead : v <+: rest := by
      have hwhole := readMarkup_append o op rest
      rw [hv, List.append_assoc] at hwhole
      exact ⟨_, List.append_cancel_left hwhole⟩
    have hagain : opening? (op.text ++ v) = some (op, v) := by
      refine opening?_of_prefix hopening hlead ?_
      rintro rfl
      exact readMarkup_rest_of_bare hopening hv
    have halone := readMarkup_alone hv
    rw [hread, hv, readToken, hagain]
    exact halone
  | none =>
    have hread : readToken o s = readText s := by rw [readToken, hopening]
    have hagain : opening? (readText s).raw = none := by
      rw [← Option.not_isSome_iff_eq_none] at hopening ⊢
      intro hopens
      have hlonger := lasting_opensMarkup _ (readText s).rest hopens
      rw [readText_append] at hlonger
      exact hopening hlonger
    rw [hread, readToken, hagain]
    cases s with
    | nil => exact ⟨rfl, rfl, rfl⟩
    | cons c s =>
      have hbreak := lasting_opensMarkup.breakAt_eq (s := s) List.nil_prefix (.inl rfl)
      rw [List.append_nil] at hbreak
      simp only [readText, hbreak]
      exact ⟨rfl, rfl, rfl⟩

/-- A document that one token takes up is that token. -/
theorem scan_eq_singleton {s : List Char} (hmore : s ≠ []) (hrest : (readToken 0 s).rest = []) :
    scan s = [(Cursor.atStart s).token] := by
  have hfirst : (Cursor.atStart s).next? = some ((Cursor.atStart s).place (readToken 0 s)) :=
    Cursor.next?_of_ne_nil hmore
  have hlast : ((Cursor.atStart s).place (readToken 0 s)).next.next? = none := if_pos hrest
  rw [scan, Cursor.steps_of_some hfirst, Cursor.steps_of_none hlast]
  rfl

/-- The text of a token that is not the content of a raw element, scanned as a document of its own,
gives that one token, moved to the start of the document. -/
theorem scan_raw_of_mem_scan (source : List Char) {t : Token} (ht : t ∈ scan source)
    (hcontent : ∀ data element, t.kind ≠ .cdata data (some element)) :
    ∃ alone, scan t.raw = [alone] ∧ alone.span.start = 0 ∧ alone.shift t.span.start = t := by
  rcases exists_cursor_of_mem_scan ht with ⟨here, -, hmore, rfl⟩
  have hread : here.lexeme = readToken here.offset here.rest := by
    rcases here.lexeme_cases with ⟨element, hread⟩ | ⟨op, s, hopening, hread⟩ | ⟨hopening, hread⟩
    · exact absurd (congrArg Lexeme.kind hread) (hcontent _ element)
    · rw [hread, readToken, hopening]
    · rw [hread, readToken, hopening]
  -- the same text at the start of a document, and then without what comes after the token
  have hmoved := readToken_shift here.offset 0 here.rest
  have halone := readToken_alone 0 here.rest
  rw [Nat.zero_add, ← hread] at hmoved
  rw [← hmoved.raw] at halone
  refine ⟨(Cursor.atStart here.lexeme.raw).token,
    scan_eq_singleton (Cursor.lexeme_raw_ne_nil hmore) halone.rest, rfl, ?_⟩
  have hraw : (readToken 0 here.lexeme.raw).raw = here.lexeme.raw :=
    halone.raw.trans hmoved.raw.symm
  have hkind : (readToken 0 here.lexeme.raw).kind.shift here.offset = here.lexeme.kind := by
    rw [halone.kind, hmoved.kind]
  have hspan : (Span.ofText 0 (readToken 0 here.lexeme.raw).raw).shift here.offset
      = Span.ofText here.offset here.lexeme.raw := by
    rw [← Span.ofText_add, Nat.zero_add, hraw]
  exact congr (congr (congrArg Token.mk hkind) hraw) hspan

/-- In `é<p a="ü<b>` the quote is never closed. The tag is cut where `<b>` opens, and it is the same
tag, two bytes earlier, where the document ends. -/
theorem scan_raw_openQuote :
    ∃ alone, scan "<p a=\"ü".toList = [alone] ∧ alone.span.start = 0
      ∧ alone.shift 2 = ⟨.startTag ['p'] [⟨['a'], ['ü'], .double, "a=\"ü".toList, ⟨5, 10⟩⟩] false,
          "<p a=\"ü".toList, ⟨2, 10⟩⟩ := by
  have hmem : ⟨.startTag ['p'] [⟨['a'], ['ü'], .double, "a=\"ü".toList, ⟨5, 10⟩⟩] false,
      "<p a=\"ü".toList, ⟨2, 10⟩⟩ ∈ scan "é<p a=\"ü<b>".toList := by
    decide +kernel
  exact scan_raw_of_mem_scan "é<p a=\"ü<b>".toList hmem nofun

end HtmlLint
