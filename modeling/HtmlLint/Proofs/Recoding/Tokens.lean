import HtmlLint.Proofs.Recoding.Tags
import HtmlLint.Proofs.Tiling

/-!
# Recoding tokens

A document and the recoded document are cut into the same tokens, as long as only spaces are written
in another way: the same kinds in the same order, with their texts and their parts recoded. Letters
have to stay as they are, because some forms of markup are told apart by the case of their letters.

* `Recoding.SameKind`, `Recoding.SameLexeme` — one token before and after.
* `Recoding.SameTokens` — all tokens before and after. Both sides are tiled from offsets of their
  own.

Letters matter in two places only: where a section of characters opens (`Recoding.TellsSections`),
and where a comment is told from a conditional. All else holds of every recoding, and a run in which
kinds are renamed so that the second difference does not show goes through as well
(`Recoding.SameCursor.steps_relabel`).
-/

namespace HtmlLint

/-- What was read, with its kind renamed. -/
def Lexeme.relabel (g : Token.Kind → Token.Kind) (read : Lexeme) : Lexeme :=
  { read with kind := g read.kind }

/-- The token, with its kind renamed. -/
def Token.relabel (g : Token.Kind → Token.Kind) (t : Token) : Token :=
  { t with kind := g t.kind }

namespace Recoding

variable {r : Recoding} {o o' : Nat}

/-- The kind of a token of text `raw` at offset `o`, and that of the recoded token at `o'`. -/
inductive SameKind (r : Recoding) (o o' : Nat) (raw : List Char) :
    Token.Kind → Token.Kind → Prop where
  | startTag {name : List Char} {a b : List Attribute} (selfClosing : Bool)
      (hname : ∀ c ∈ name, isSpace c = false) (hitems : List.Forall₂ (r.SamePlace o o' raw) a b) :
      SameKind r o o' raw (.startTag name a selfClosing) (.startTag (r.apply name) b selfClosing)
  | endTag {name : List Char} (hname : ∀ c ∈ name, isSpace c = false) :
      SameKind r o o' raw (.endTag name) (.endTag (r.apply name))
  | text : SameKind r o o' raw .text .text
  | comment (data : List Char) : SameKind r o o' raw (.comment data) (.comment (r.apply data))
  | conditional (data : List Char) :
      SameKind r o o' raw (.conditional data) (.conditional (r.apply data))
  | declaration (data : List Char) :
      SameKind r o o' raw (.declaration data) (.declaration (r.apply data))
  | cdata (data : List Char) (element : Option RawElement) :
      SameKind r o o' raw (.cdata data element) (.cdata (r.apply data) element)

/-- What is read at offset `o`, and what is read of the recoded text at offset `o'`. -/
structure SameLexeme (r : Recoding) (o o' : Nat) (a b : Lexeme) : Prop where
  kind : r.SameKind o o' a.raw a.kind b.kind
  raw : b.raw = r.apply a.raw
  rest : b.rest = r.apply a.rest

/-! ## Where markup opens -/

theorem Exact.fixes_all (hr : r.Exact) {s : List Char}
    (hs : s.all (fun c => !isSpace c) = true) : ∀ x ∈ s, r.Fixes x := by
  intro x hx
  exact hr.fixes (not_isSpace_of_all hs x hx)

/-- Texts of marks are written as they are by every recoding. -/
theorem fixes_marks {s : List Char} (hs : s.all (fun c => !isSpace c && !c.isAlpha) = true) :
    ∀ x ∈ s, r.Fixes x := by
  intro x hx
  have hmark := List.all_eq_true.1 hs x hx
  simp only [Bool.and_eq_true, Bool.not_eq_eq_eq_not, Bool.not_true] at hmark
  exact r.fixes_of_mark hmark.1 hmark.2

/-- Only the opening of a section of characters has letters in it. -/
theorem apply_openingText (op : Opening) (hop : op ≠ .cdata) : r.apply op.text = op.text := by
  apply apply_eq_self
  apply fixes_marks
  cases op with
  | cdata => exact absurd rfl hop
  | _ => rfl

theorem Exact.apply_openingText (hr : r.Exact) (op : Opening) : r.apply op.text = op.text := by
  apply apply_eq_self
  apply hr.fixes_all
  cases op <;> rfl

/-- The opening of a section of characters, without `<!`. -/
def sectionMark : List Char :=
  ['[', 'C', 'D', 'A', 'T', 'A', '[']

/-- If `s` starts with `<!`, it opens a section of characters exactly if the recoded text does. -/
def TellsSection (r : Recoding) (s : List Char) : Prop :=
  ∀ t, s = '<' :: '!' :: t →
    Text.after? sectionMark (r.apply t) = (Text.after? sectionMark t).map r.apply

/-- The same, wherever in the text `s`. -/
def TellsSections (r : Recoding) (s : List Char) : Prop :=
  ∀ t, t <:+ s → r.TellsSection t

theorem TellsSections.here {s : List Char} (h : r.TellsSections s) : r.TellsSection s :=
  h s List.suffix_rfl

theorem TellsSections.suffix {s t : List Char} (h : r.TellsSections s) (ht : t <:+ s) :
    r.TellsSections t :=
  fun u hu => h u (hu.trans ht)

theorem Exact.tellsSections (hr : r.Exact) (s : List Char) : r.TellsSections s :=
  fun _ _ t _ => after?_apply (hr.fixes_all (s := sectionMark) rfl) t

theorem afterBang_apply {s : List Char}
    (hcdata : Text.after? sectionMark (r.apply s) = (Text.after? sectionMark s).map r.apply) :
    Opening.afterBang (r.apply s)
      = ((Opening.afterBang s).1, r.apply (Opening.afterBang s).2) := by
  have hcomment := after?_apply (r := r) (fixes_marks (s := ['-', '-']) rfl) s
  have hconditional := after?_apply (r := r) (fixes_marks (s := ['[']) rfl) s
  simp only [sectionMark] at hcdata
  simp only [Opening.afterBang, hcomment, hcdata, hconditional]
  cases Text.after? ['-', '-'] s with
  | some rest => rfl
  | none =>
    cases Text.after? ['[', 'C', 'D', 'A', 'T', 'A', '['] s with
    | some rest => rfl
    | none => cases Text.after? ['['] s <;> rfl

theorem opening?_of_not_opensMarkup {s : List Char} (h : opensMarkup s = false) :
    opening? s = none := by
  simpa [opensMarkup] using h

theorem opening?_apply {s : List Char} (hsection : r.TellsSection s) :
    opening? (r.apply s) = (opening? s).map fun found => (found.1, r.apply found.2) := by
  have hbracket : r.Fixes '<' := r.fixes_of_mark rfl rfl
  cases hopens : opensMarkup s with
  | false =>
    have hopens' : opensMarkup (r.apply s) = false := (opensMarkup_apply s).trans hopens
    rw [opening?_of_not_opensMarkup hopens, opening?_of_not_opensMarkup hopens']
    rfl
  | true =>
    rcases exists_bracket_of_opensMarkup hopens with ⟨t, rfl⟩
    rcases t with _ | ⟨c, t⟩
    · cases hopens
    rw [hbracket.apply_cons]
    -- what opens markup after a bracket is a mark or a letter, and is written as the same
    simp only [opensMarkup_bracket, Bool.or_eq_true, Bool.and_eq_true, beq_iff_eq] at hopens
    rcases hopens with ((rfl | rfl) | ⟨rfl, hletter⟩) | hletter
    · have hbang : r.Fixes '!' := r.fixes_of_mark rfl rfl
      simp [hbang.apply_cons, opening?, afterBang_apply (hsection t rfl)]
    · have hmark : r.Fixes '?' := r.fixes_of_mark rfl rfl
      simp [hmark.apply_cons, opening?]
    · have hslash : r.Fixes '/' := r.fixes_of_mark rfl rfl
      have hletter' : startsWithLetter (r.apply t) = true := by
        rw [startsWithLetter_eq, keeps_isAlpha.any_head?, ← startsWithLetter_eq, hletter]
      simp [hslash.apply_cons, opening?, hletter, hletter']
    · rcases r.write_other c (isSpace_of_isAlpha hletter) with ⟨d, hd, -⟩
      have hletter' : d.isAlpha = true :=
        (keeps_isAlpha (r := r) c d (by simp [hd])).trans hletter
      have hwhole : r.apply (c :: t) = d :: r.apply t := by simp [hd]
      rw [hwhole, opening?_letter hletter, opening?_letter hletter', Option.map_some, hwhole]

/-! ## Markup that encloses data -/

/-- What enclosed data becomes when all the text is recoded. -/
def enclosed (r : Recoding) (read : Enclosed) : Enclosed :=
  ⟨r.apply read.data, r.apply read.close, r.apply read.rest⟩

theorem readEnclosed_apply {x : Char} {close : List Char} (hfix : ∀ y ∈ x :: close, r.Fixes y)
    (hx : isSpace x = false) (s : List Char) :
    readEnclosed (x :: close) (r.apply s) = r.enclosed (readEnclosed (x :: close) s) := by
  simp only [readEnclosed, (sees_startsWith hfix hx).breakAt, after?_apply hfix]
  cases Text.after? (x :: close) (Text.breakAt (Text.startsWith (x :: close)) s).2 with
  | none => rfl
  | some rest => simp only [enclosed, Option.map_some, apply_eq_self hfix]

theorem readComment_of_ne {s : List Char} (hclose : Text.startsWith ['>'] s = false)
    (hdash : Text.startsWith ['-', '>'] s = false) :
    readComment s = readEnclosed ['-', '-', '>'] s := by
  unfold readComment
  split
  · cases hclose
  · cases hdash
  · rfl

theorem readComment_apply (s : List Char) : readComment (r.apply s) = r.enclosed (readComment s) := by
  have hclose : r.Fixes '>' := r.fixes_of_mark rfl rfl
  have hdash : r.Fixes '-' := r.fixes_of_mark rfl rfl
  cases hshort : Text.startsWith ['>'] s with
  | true =>
    rcases Text.startsWith_iff.1 hshort with ⟨rest, rfl⟩
    simp [enclosed, readComment, hclose.1]
  | false =>
    cases hlong : Text.startsWith ['-', '>'] s with
    | true =>
      rcases Text.startsWith_iff.1 hlong with ⟨rest, rfl⟩
      simp [enclosed, readComment, hclose.1, hdash.1]
    | false =>
      have hshort' := (startsWith_apply (r := r) (by simpa using hclose) s).trans hshort
      have hlong' := (startsWith_apply (r := r) (by simp [hclose, hdash]) s).trans hlong
      rw [readComment_of_ne hshort hlong, readComment_of_ne hshort' hlong']
      exact readEnclosed_apply (by simp [hclose, hdash]) rfl s

theorem commentKind_apply (hr : r.Exact) (raw data : List Char) :
    r.SameKind o o' raw (commentKind data) (commentKind (r.apply data)) := by
  have hstart := startsWith_apply (hr.fixes_all (s := ['[', 'i', 'f']) rfl) data
  have hend := isSuffixOf_apply
    (hr.fixes_all (s := ['<', '!', '[', 'e', 'n', 'd', 'i', 'f', ']']) rfl) data
  simp only [commentKind, hstart, hend]
  split
  · exact .conditional data
  · exact .comment data

theorem sameLexeme_enclosed {op : Opening} (hop : r.apply op.text = op.text) (read : Enclosed)
    {kind : List Char → Token.Kind} {unclosed unclosed' : Notice}
    (hkind : ∀ raw data, r.SameKind o o' raw (kind data) (kind (r.apply data))) :
    r.SameLexeme o o' (read.lexeme op kind unclosed)
      ((r.enclosed read).lexeme op kind unclosed') := by
  refine ⟨hkind _ _, ?_, rfl⟩
  simp [Enclosed.lexeme, enclosed, hop]

theorem bounded_apply {op : Opening} (hop : r.apply op.text = op.text) {x : Char}
    {close : List Char} (hclose : (x :: close).all (fun c => !isSpace c && !c.isAlpha) = true)
    {kind : List Char → Token.Kind}
    (hkind : ∀ raw data, r.SameKind o o' raw (kind data) (kind (r.apply data))) (s : List Char) :
    r.SameLexeme o o' (readMarkup.bounded o op s (x :: close) kind)
      (readMarkup.bounded o' op (r.apply s) (x :: close) kind) := by
  have hx : isSpace x = false := by
    have hmark := List.all_eq_true.1 hclose x List.mem_cons_self
    simp only [Bool.and_eq_true, Bool.not_eq_eq_eq_not, Bool.not_true] at hmark
    exact hmark.1
  simp only [readMarkup.bounded, readEnclosed_apply (fixes_marks hclose) hx]
  exact sameLexeme_enclosed hop _ hkind

/-! ## Tags -/

theorem readEndTag_apply (s : List Char) :
    r.SameLexeme o o' (readEndTag o s) (readEndTag o' (r.apply s)) := by
  have hclose : r.Fixes '>' := r.fixes_of_mark rfl rfl
  have htext : r.apply Opening.endTag.text = Opening.endTag.text := apply_openingText .endTag nofun
  have hname : r.Keeps (!endsTagName ·) := keeps_endsTagName.not
  have hsolid : ∀ c ∈ s.takeWhile (!endsTagName ·), isSpace c = false :=
    not_isSpace_of_mem_name endsTagName_of_isSpace
  have hsplit : Text.breakAt atTagBoundary ((r.apply s).dropWhile (!endsTagName ·))
      = (r.apply (Text.breakAt atTagBoundary (s.dropWhile (!endsTagName ·))).1,
        r.apply (Text.breakAt atTagBoundary (s.dropWhile (!endsTagName ·))).2) := by
    rw [hname.dropWhile, sees_atTagBoundary.breakAt]
  by_cases hclosed : (Text.breakAt atTagBoundary (s.dropWhile (!endsTagName ·))).2.head? = some '>'
  · rcases List.head?_eq_some_iff.1 hclosed with ⟨rest, hrest⟩
    rw [hrest, hclose.apply_cons] at hsplit
    simp only [readEndTag, hrest, hsplit, hname.takeWhile]
    refine ⟨.endTag hsolid, ?_, rfl⟩
    simp [htext, hclose.1]
  · have hopen : (Text.breakAt atTagBoundary ((r.apply s).dropWhile (!endsTagName ·))).2.head?
        ≠ some '>' := by
      rw [hsplit]
      intro h
      exact hclosed (hclose.head?_eq_iff.1 h)
    rw [readEndTag_open o hclosed, readEndTag_open o' hopen, hsplit, hname.takeWhile]
    refine ⟨.endTag hsolid, ?_, rfl⟩
    simp [htext]

theorem readStartTag_apply (s : List Char) :
    r.SameLexeme o o' (readStartTag o s) (readStartTag o' (r.apply s)) := by
  have hname : r.Keeps (!endsTagName ·) := keeps_endsTagName.not
  have htext : r.apply Opening.startTag.text = Opening.startTag.text :=
    apply_openingText .startTag nofun
  have hbracket : r.apply ['<'] = ['<'] := htext
  have hsolid : ∀ c ∈ s.takeWhile (!endsTagName ·), isSpace c = false :=
    not_isSpace_of_mem_name endsTagName_of_isSpace
  have htail := readTagTail_apply (r := r)
    (o + 1 + Text.byteLength (s.takeWhile (!endsTagName ·)))
    (o' + 1 + Text.byteLength (r.apply (s.takeWhile (!endsTagName ·))))
    (s.dropWhile (!endsTagName ·))
  simp only [readStartTag, hname.takeWhile, hname.dropWhile]
  refine ⟨?_, ?_, htail.rest⟩
  · rw [htail.ending]
    refine .startTag _ hsolid (htail.attributes.imp fun a b hplace => ?_)
    have hplace' := hplace.prepend (s.takeWhile (!endsTagName ·))
    refine SamePlace.prepend ['<'] ?_
    rw [hbracket]
    exact hplace'
  · simp [htail.raw, htext]

/-! ## Tokens -/

theorem readMarkup_apply (hr : r.Exact) (op : Opening) (s : List Char) :
    r.SameLexeme o o' (readMarkup o op s) (readMarkup o' op (r.apply s)) := by
  have htext := hr.apply_openingText
  cases op with
  | comment =>
    simp only [readMarkup, readComment_apply]
    exact sameLexeme_enclosed (htext _) _ (commentKind_apply hr)
  | cdata => exact bounded_apply (htext _) rfl (fun _ data => .cdata data none) s
  | conditional => exact bounded_apply (htext _) rfl (fun _ data => .conditional data) s
  | declaration => exact bounded_apply (htext _) rfl (fun _ data => .declaration data) s
  | instruction => exact bounded_apply (htext _) rfl (fun _ data => .comment data) s
  | endTag => exact readEndTag_apply s
  | startTag => exact readStartTag_apply s

/-- Where a text starts with a space, more of it may be spaces after a recoding; none of them opens
markup. -/
theorem readText_apply (s : List Char) :
    r.SameLexeme o o' (readText s) (readText (r.apply s)) := by
  cases s with
  | nil => exact ⟨.text, rfl, rfl⟩
  | cons c s =>
    rcases r.exists_write c with ⟨d, gap, hd⟩
    have hgap : ∀ e ∈ gap, isSpace e = true := by
      intro e he
      cases hc : isSpace c with
      | true => exact (r.write_space c hc).2 e (by simp [hd, he])
      | false =>
        rcases r.write_other c hc with ⟨f, hf, -⟩
        obtain ⟨-, rfl⟩ : d = f ∧ gap = [] := by simpa [hd] using hf
        cases he
    have hbreak : Text.breakAt opensMarkup (gap ++ r.apply s)
        = (gap ++ r.apply (Text.breakAt opensMarkup s).1, r.apply (Text.breakAt opensMarkup s).2) := by
      rw [breakAt_spaces (sees_opensMarkup (r := r)).space hgap, sees_opensMarkup.breakAt]
    simp only [apply_cons, hd, List.cons_append, readText, hbreak]
    exact ⟨.text, by simp [hd], rfl⟩

theorem readToken_apply (hr : r.Exact) (s : List Char) :
    r.SameLexeme o o' (readToken o s) (readToken o' (r.apply s)) := by
  simp only [readToken, opening?_apply (hr.tellsSections s).here]
  cases opening? s with
  | none => exact readText_apply s
  | some found => exact readMarkup_apply hr found.1 found.2

theorem sees_closesElement (element : RawElement) :
    r.Sees (closesElement element) := by
  have hname : ∀ c ∈ element.name, isSpace c = false := by
    apply not_isSpace_of_all
    cases element <;> rfl
  constructor
  · intro s
    simp only [closesElement, after?_apply (r := r) (fixes_marks (s := Opening.endTag.text) rfl)]
    cases Text.after? Opening.endTag.text s with
    | none => rfl
    | some t => exact sameIgnoringCase_take_apply hname keeps_endsTagName.all_head? t
  · intro c s hc
    have hne : c ≠ '<' := by
      rintro rfl
      cases hc
    simp [closesElement, Opening.text, Text.after?, hne.symm]

theorem readRawText_apply (element : RawElement) (s : List Char) :
    r.SameLexeme o o' (readRawText o element s) (readRawText o' element (r.apply s)) := by
  simp only [readRawText, (sees_closesElement (r := r) element).breakAt]
  exact ⟨.cdata _ (some element), rfl, rfl⟩

/-! ## Scanning -/

theorem SameKind.opens? {raw : List Char} {a b : Token.Kind} (h : r.SameKind o o' raw a b) :
    b.opens? = a.opens? := by
  cases h with
  | startTag selfClosing hname =>
    cases selfClosing with
    | true => rfl
    | false => simp [Token.Kind.opens?, RawElement.ofName?, Text.sameIgnoringCase, lower_apply hname]
  | _ => rfl

/-- The same place between two tokens, in a document and in the recoded document. -/
structure SameCursor (r : Recoding) (a b : Cursor) : Prop where
  rest : b.rest = r.apply a.rest
  pending : b.pending = a.pending

/-- At the same place either the content of an element is read, alike on both sides, or a token is
read on both sides. -/
theorem SameCursor.lexeme_cases {a b : Cursor} (h : r.SameCursor a b) :
    r.SameLexeme a.offset b.offset a.lexeme b.lexeme
      ∨ a.lexeme = readToken a.offset a.rest ∧ b.lexeme = readToken b.offset (r.apply a.rest) := by
  simp only [Cursor.lexeme, h.pending, h.rest]
  cases a.pending with
  | none => exact .inr ⟨rfl, rfl⟩
  | some element =>
    have hcontent : r.SameLexeme a.offset b.offset (readRawText a.offset element a.rest)
        (readRawText b.offset element (r.apply a.rest)) := readRawText_apply element a.rest
    -- pending content is passed over on both sides or on none
    have hempty : (readRawText b.offset element (r.apply a.rest)).raw = []
        ↔ (readRawText a.offset element a.rest).raw = [] := by
      rw [hcontent.raw, apply_eq_nil_iff]
    by_cases hnone : (readRawText a.offset element a.rest).raw = []
    · exact .inr ⟨if_pos hnone, if_pos (hempty.2 hnone)⟩
    · left
      simp only [hnone, mt hempty.1 hnone, if_false]
      exact hcontent

theorem SameCursor.lexeme (hr : r.Exact) {a b : Cursor} (h : r.SameCursor a b) :
    r.SameLexeme a.offset b.offset a.lexeme b.lexeme := by
  rcases h.lexeme_cases with hcontent | ⟨ha, hb⟩
  · exact hcontent
  · rw [ha, hb]
    exact readToken_apply hr a.rest

/-- Two token lists in step: every token on the right, from offset `o'` on, is the recoded token on
the left, from offset `o` on. -/
inductive SameTokens (r : Recoding) : Nat → Nat → List Token → List Token → Prop where
  | nil {o o' : Nat} : SameTokens r o o' [] []
  | cons {o o' : Nat} {t u : Token} {a b : List Token} (hspan : t.span = .ofText o t.raw)
      (hspan' : u.span = .ofText o' u.raw) (hraw : u.raw = r.apply t.raw)
      (hkind : r.SameKind o o' t.raw t.kind u.kind)
      (hrest : SameTokens r t.span.stop u.span.stop a b) : SameTokens r o o' (t :: a) (u :: b)

/-- From the same place on, all tokens are the same, if they are read alike once their kinds are
renamed by `g`. -/
theorem SameCursor.steps_relabel {g : Token.Kind → Token.Kind}
    (hopens : ∀ kind, (g kind).opens? = kind.opens?)
    (hread : ∀ {a b : Cursor}, r.SameCursor a b → r.TellsSection a.rest →
      r.SameLexeme a.offset b.offset (a.lexeme.relabel g) (b.lexeme.relabel g))
    {a b : Cursor} (h : r.SameCursor a b) (hsections : r.TellsSections a.rest) :
    r.SameTokens a.offset b.offset (a.steps.map (·.token.relabel g))
      (b.steps.map (·.token.relabel g)) := by
  induction a using Cursor.induction generalizing b with
  | finished a hnone =>
    have hrest : b.rest = [] := by
      rw [h.rest, Cursor.rest_of_none hnone]
      rfl
    have hnone' : b.next? = none := by simp [Cursor.next?, hrest]
    rw [Cursor.steps_of_none hnone, Cursor.steps_of_none hnone']
    exact .nil
  | step a step hsome ih =>
    have hmore : a.rest ≠ [] := by
      intro hend
      simp [Cursor.next?, hend] at hsome
    have hmore' : b.rest ≠ [] := by
      rw [h.rest]
      exact mt apply_eq_nil_iff.1 hmore
    have hsuffix : step.next.rest <:+ a.rest := ⟨_, Cursor.next?_append hsome⟩
    obtain rfl : a.place a.lexeme = step := by simpa [Cursor.next?, hmore] using hsome
    have hsome' : b.next? = some (b.place b.lexeme) := by simp [Cursor.next?, hmore']
    have hlexeme := hread h hsections.here
    have hnext : r.SameCursor (a.place a.lexeme).next (b.place b.lexeme).next := by
      have hpending := hlexeme.kind.opens?
      simp only [Lexeme.relabel, hopens] at hpending
      exact ⟨hlexeme.rest, hpending⟩
    rw [Cursor.steps_of_some hsome, Cursor.steps_of_some hsome']
    exact .cons rfl rfl hlexeme.raw hlexeme.kind (ih hnext (hsections.suffix hsuffix))

theorem SameCursor.steps (hr : r.Exact) {a b : Cursor} (h : r.SameCursor a b) :
    r.SameTokens a.offset b.offset (a.steps.map (·.token)) (b.steps.map (·.token)) :=
  h.steps_relabel (g := id) (fun _ => rfl) (fun h _ => h.lexeme hr) (hr.tellsSections a.rest)

theorem scan_apply (hr : r.Exact) (source : List Char) :
    r.SameTokens 0 0 (scan source) (scan (r.apply source)) := by
  have hstart : r.SameCursor (.atStart source) (.atStart (r.apply source)) := ⟨rfl, rfl⟩
  exact hstart.steps hr

end Recoding

end HtmlLint
