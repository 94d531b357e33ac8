import HtmlLint.Proofs.RenderedTags

/-!
# Scanning undoes rendering

The tokens of a rendered canonical document are the tokens that its items stand for: each item is
read as one token, with its kind, its parts and its span.

One lemma for each form of item says how the item is read before any rest of a document that its
neighbours allow. `next?_render` puts them together into what one step of the scanner does on the
first item of a coherent list, and the round trip is an induction on the list.
-/

namespace HtmlLint.Canonical

/-! ## Markup around data -/

/-- Markup with a fixed closing text is read back before any rest. -/
theorem readToken_enclosed (offset : Nat) {o : Opening} {s data close rest : List Char}
    (kind : List Char → Token.Kind) (unclosed : Notice)
    (hopen : opening? s = some (o, data ++ (close ++ rest)))
    (hread : readMarkup offset o (data ++ (close ++ rest))
      = (readEnclosed close (data ++ (close ++ rest))).lexeme o kind unclosed)
    (hun : Text.Unbordered close) (hne : close ≠ []) (hdata : ¬ close <:+: data) :
    readToken offset s = ⟨kind data, o.text ++ (data ++ close), rest, []⟩ := by
  rw [readToken_of_opening offset hopen, hread, readEnclosed_eq hun hdata]
  simp [Enclosed.lexeme, hne]

theorem readComment_eq {s : List Char} (hclose : ¬ ['>'] <+: s) (hdash : ¬ ['-', '>'] <+: s) :
    readComment s = readEnclosed ['-', '-', '>'] s := by
  unfold readComment
  split
  · next rest => exact absurd ⟨rest, rfl⟩ hclose
  · next rest => exact absurd ⟨rest, rfl⟩ hdash
  · rfl

theorem commentKind_eq (data : List Char) :
    commentKind data =
      if ['[', 'i', 'f'] <+: data ∨ ['<', '!', '[', 'e', 'n', 'd', 'i', 'f', ']'] <:+ data then
        .conditional data
      else .comment data := by
  simp only [commentKind, Bool.or_eq_true, Text.startsWith_iff_prefix, List.isSuffixOf_iff_suffix]

theorem readToken_comment (offset : Nat) {data : List Char} (hplain : ¬ ['-', '-', '>'] <:+: data)
    (habrupt : ¬ ['>'] <+: data ∧ ¬ ['-', '>'] <+: data) (rest : List Char) :
    readToken offset ((Item.comment data hplain habrupt).render ++ rest) =
      ⟨(Item.comment data hplain habrupt).kind offset, (Item.comment data hplain habrupt).render,
        rest, []⟩ := by
  have hopen : opening? ((Item.comment data hplain habrupt).render ++ rest) = some
      (.comment, data ++ (['-', '-', '>'] ++ rest)) := by
    simp [Item.render, opening?, Opening.afterBang, Text.after?]
  have hclose : ¬ ['>'] <+: data ++ (['-', '-', '>'] ++ rest) :=
    Text.not_prefix_append_cons habrupt.1 (by decide)
  -- data that ends in `-` is followed by `--`, so it does not end at once either
  have hdash : ¬ ['-', '>'] <+: data ++ (['-', '-', '>'] ++ rest) := by
    have hdata := habrupt.2
    rcases data with _ | ⟨c, _ | ⟨d, data⟩⟩
    · simp [List.cons_prefix_cons]
    · simp [List.cons_prefix_cons]
    · simpa [List.cons_prefix_cons] using hdata
  have hread := readToken_enclosed offset commentKind (.openComment offset) hopen
    (by rw [readMarkup, readComment_eq hclose hdash]) (by decide) (by decide) hplain
  rw [hread, commentKind_eq]
  rfl

/-- Markup that is no tag and no comment is read back before any rest. -/
theorem readToken_bounded (offset : Nat) (data : List Char) {o : Opening}
    {s close rest : List Char} {kind : List Char → Token.Kind}
    (hopen : opening? s = some (o, data ++ (close ++ rest)))
    (hread : readMarkup offset o (data ++ (close ++ rest))
      = readMarkup.bounded offset o (data ++ (close ++ rest)) close kind)
    (hun : Text.Unbordered close) (hne : close ≠ []) (hdata : ¬ close <:+: data) :
    readToken offset s = ⟨kind data, o.text ++ (data ++ close), rest, []⟩ :=
  readToken_enclosed offset kind (.openDeclaration offset close) hopen hread hun hne hdata

theorem not_closes_of_not_mem {c : Char} {s : List Char} (h : c ∉ s) : ¬ [c] <:+: s := by
  intro hcloses
  exact h (hcloses.subset List.mem_cons_self)

namespace Item

/-- The item is a tag or other markup. -/
def isMarkup : Item → Bool
  | text .. | content .. => false
  | _ => true

end Item

/-- Markup is read back before any rest. -/
theorem readToken_markup (offset : Nat) {item : Item} (hmarkup : item.isMarkup = true)
    (rest : List Char) :
    readToken offset (item.render ++ rest) = ⟨item.kind offset, item.render, rest, []⟩ := by
  cases item with
  | startTag name attributes selfClosing => exact readToken_startTag ..
  | endTag name => exact readToken_endTag ..
  | comment data hplain habrupt => exact readToken_comment ..
  | cdata data hplain =>
    refine readToken_bounded (o := .cdata) offset data ?_ rfl (by decide) (by decide) hplain
    simp [Item.render, opening?, Opening.afterBang, Text.after?]
  | revealed data hplain hcdata =>
    have hother : ¬ ['C', 'D', 'A', 'T', 'A', '['] <+: data ++ ([']', '>'] ++ rest) :=
      Text.not_prefix_append_cons hcdata (by decide)
    refine readToken_bounded (o := .conditional) offset data ?_ rfl (by decide) (by decide) hplain
    rw [← Text.after?_eq_none_iff] at hother
    simp only [List.cons_append, List.nil_append] at hother
    simp [Item.render, opening?, Opening.afterBang, Text.after?, hother]
  | declaration data hplain hother =>
    have hdashes : ¬ ['-', '-'] <+: data ++ (['>'] ++ rest) :=
      Text.not_prefix_append_cons hother.1 (by decide)
    have hbracket : ¬ ['['] <+: data ++ (['>'] ++ rest) :=
      Text.not_prefix_append_cons hother.2 (by decide)
    have hcdata : ¬ ['[', 'C', 'D', 'A', 'T', 'A', '['] <+: data ++ (['>'] ++ rest) := by
      intro h
      exact hbracket ((List.prefix_append ['['] _).trans h)
    refine readToken_bounded (o := .declaration) offset data ?_ rfl (by decide) (by decide)
      (not_closes_of_not_mem hplain)
    rw [← Text.after?_eq_none_iff] at hdashes hbracket hcdata
    simp only [List.cons_append, List.nil_append] at hdashes hbracket hcdata
    simp [Item.render, opening?, Opening.afterBang, hdashes, hbracket, hcdata]
  | instruction data hplain =>
    have hdata : '>' ∉ '?' :: data := by simpa using hplain
    refine readToken_bounded (o := .instruction) offset ('?' :: data) ?_ rfl (by decide)
      (by decide) (not_closes_of_not_mem hdata)
    simp [Item.render, opening?]
  | text => cases hmarkup
  | content => cases hmarkup

/-! ## Text and content -/

/-- A run of text is read back at the end of a document and before markup. -/
theorem readToken_text (offset : Nat) {run rest : List Char} (hne : run ≠ [])
    (hplain : ∀ s ∈ run.tails, opensMarkup s = false)
    (hrest : rest = [] ∨ opensMarkup rest = true) :
    readToken offset (run ++ rest) = ⟨.text, run, rest, []⟩ := by
  have hnone : ∀ b, b <:+ run → b ≠ [] → opensMarkup (b ++ rest) = false := by
    intro b hb hbne
    have hopens := hplain b ((List.mem_tails b run).2 hb)
    rcases hrest with rfl | hmarkup
    · rwa [List.append_nil]
    · rcases exists_bracket_of_opensMarkup hmarkup with ⟨r, rfl⟩
      exact opensMarkup_append_bracket hbne hopens r
  have hopen : opening? (run ++ rest) = none := by
    simpa [opensMarkup] using hnone run List.suffix_rfl hne
  cases run with
  | nil => exact absurd rfl hne
  | cons c run =>
    have hbreak : Text.breakAt opensMarkup (run ++ rest) = (run, rest) := by
      refine Text.breakAt_eq ?_ hrest
      intro b hb hbne
      exact hnone b (hb.trans (List.suffix_cons c run)) hbne
    rw [List.cons_append] at hopen ⊢
    simp [readToken, hopen, readText, hbreak]

theorem sameIgnoringCase_length {s t : List Char} (h : Text.sameIgnoringCase s t = true) :
    s.length = t.length := by
  have hlower : Text.lower s = Text.lower t := by simpa [Text.sameIgnoringCase] using h
  simpa [Text.lower] using congrArg List.length hlower

/-- An end tag of an element closes it. -/
theorem closesElement_endTag {element : RawElement} {name : TagName}
    (h : Text.sameIgnoringCase name.text element.name = true) (rest : List Char) :
    closesElement element ((Item.endTag name).render ++ rest) = true := by
  have hlength := sameIgnoringCase_length h
  simp [closesElement, Item.render, Opening.text, Text.after?, ← hlength, h, endsTagName]

/-- The name of a raw element has no `<`, in any case. -/
theorem bracket_not_mem {s : List Char} {element : RawElement}
    (h : Text.sameIgnoringCase s element.name = true) : '<' ∉ s := by
  intro hmem
  have hlower : Text.lower s = Text.lower element.name := by
    simpa [Text.sameIgnoringCase] using h
  have hin : '<' ∈ Text.lower element.name := by
    rw [← hlower]
    exact List.mem_map.2 ⟨'<', hmem, by decide⟩
  revert hin
  cases element <;> decide

/-- An end tag that is cut off by a `<` closes nothing. -/
theorem closesElement_append_bracket {element : RawElement} {b : List Char} (hne : b ≠ [])
    (hb : startsEndTag element b = false) (r : List Char) :
    closesElement element (b ++ '<' :: r) = false := by
  rcases b with _ | ⟨c, _ | ⟨d, b⟩⟩
  · exact absurd rfl hne
  · simp [closesElement, Opening.text, Text.after?]
  · by_cases hopen : '<' = c ∧ '/' = d
    · rcases hopen with ⟨rfl, rfl⟩
      simp only [closesElement, Opening.text, Text.after?, List.cons_append, if_true]
      simp only [startsEndTag, Text.after?, if_true] at hb
      -- the `<` falls into the name, right after it, or behind the character that ends it
      rcases Nat.lt_trichotomy b.length element.name.length with hlt | heq | hgt
      · rw [Bool.and_eq_false_iff]
        left
        rw [Bool.eq_false_iff]
        intro hsame
        apply bracket_not_mem hsame
        rw [List.take_append, List.mem_append]
        right
        rcases Nat.exists_eq_add_of_lt hlt with ⟨k, hk⟩
        simp [hk, Nat.add_assoc]
      · simp [← heq, endsTagName, isSpace]
      · have hdrop : (b ++ '<' :: r).drop element.name.length
            = b.drop element.name.length ++ '<' :: r := List.drop_append_of_le_length hgt.le
        have htake : (b ++ '<' :: r).take element.name.length = b.take element.name.length :=
          List.take_append_of_le_length hgt.le
        rw [hdrop, htake]
        rcases hcons : b.drop element.name.length with _ | ⟨e, t⟩
        · have := List.drop_eq_nil_iff.1 hcons
          omega
        · simpa [hcons] using hb
    · have hafter : Text.after? ['<', '/'] (c :: d :: (b ++ '<' :: r)) = none := by
        rw [Text.after?_eq_none_iff]
        simp [List.cons_prefix_cons, hopen]
      simp only [closesElement, Opening.text, List.cons_append, hafter]

/-- Content is read back at the end of a document and before the end tag of its element. -/
theorem readRawText_content (offset : Nat) {element : RawElement} {run rest : List Char}
    (hplain : ∀ s ∈ run.tails, startsEndTag element s = false)
    (hrest : rest = [] ∧ (∀ s ∈ run.tails, closesElement element s = false)
      ∨ closesElement element rest = true ∧ ∃ r, rest = '<' :: r) :
    ∃ notices, readRawText offset element (run ++ rest)
      = ⟨.cdata run (some element), run, rest, notices⟩ := by
  have hbreak : Text.breakAt (closesElement element) (run ++ rest) = (run, rest) := by
    apply Text.breakAt_eq
    · intro b hb hne
      have hmem := (List.mem_tails b run).2 hb
      rcases hrest with ⟨rfl, hopen⟩ | ⟨-, r, rfl⟩
      · rw [List.append_nil]
        exact hopen b hmem
      · exact closesElement_append_bracket hne (hplain b hmem) r
    · exact hrest.imp And.left And.left
  rw [readRawText, hbreak]
  exact ⟨_, rfl⟩

/-! ## The round trip -/

theorem opensMarkup_render {item : Item} (hmarkup : item.isMarkup = true) (rest : List Char) :
    opensMarkup (item.render ++ rest) = true := by
  cases item with
  | startTag name attributes selfClosing =>
    rcases name.exists_letter with ⟨c, s, hname, hletter⟩
    simp [Item.render, hname, opensMarkup_bracket, hletter]
  | endTag name =>
    rcases name.exists_letter with ⟨c, s, hname, hletter⟩
    simp [Item.render, hname, opensMarkup_bracket, startsWithLetter, hletter]
  | text => cases hmarkup
  | content => cases hmarkup
  | _ => simp [Item.render, opensMarkup_bracket]

theorem Item.opens?_kind (offset : Nat) (item : Item) :
    (item.kind offset).opens? = item.opens? := by
  cases item with
  | startTag name attributes selfClosing => cases selfClosing <;> rfl
  | comment data =>
    simp only [Item.kind]
    split <;> rfl
  | _ => rfl

/-- What is left after text opens markup. -/
theorem render_after_text {items : List Item} (h : coherent none items = true)
    (hnext : items.head?.any Item.isText = false) :
    render items = [] ∨ opensMarkup (render items) = true := by
  cases items with
  | nil => exact .inl rfl
  | cons item items =>
    right
    have hmarkup : item.isMarkup = true := by
      cases item with
      | text => cases hnext
      | content => cases h
      | _ => rfl
    exact opensMarkup_render hmarkup (render items)

/-- Where no content is pending, the first item of a coherent list is read back. -/
theorem lexeme_render_none (offset : Nat) {item : Item} {items : List Item}
    (h : coherent none (item :: items) = true) :
    (∃ notices, (Cursor.mk offset (render (item :: items)) none).lexeme
        = ⟨item.kind offset, item.render, render items, notices⟩)
      ∧ coherent item.opens? items = true := by
  have hmarkup : item.isMarkup = true → ∃ notices,
      (Cursor.mk offset (render (item :: items)) none).lexeme
        = ⟨item.kind offset, item.render, render items, notices⟩ := by
    intro hm
    exact ⟨[], readToken_markup offset hm (render items)⟩
  cases item with
  | content => cases h
  | text run hne hplain =>
    simp only [coherent, Item.isText, Bool.true_and, Bool.and_eq_true, Bool.not_eq_true'] at h
    exact ⟨⟨[], readToken_text offset hne hplain (render_after_text h.2 h.1)⟩, h.2⟩
  | _ =>
    simp only [coherent, Bool.and_eq_true] at h
    exact ⟨hmarkup rfl, h.2⟩

/-- What is left after content closes its element, unless the document ends. -/
theorem closesElement_render {element : RawElement} {items : List Item} (hne : items ≠ [])
    (hnext : items.head?.any (Item.isEndOf element) = true) :
    closesElement element (render items) = true ∧ ∃ r, render items = '<' :: r := by
  cases items with
  | nil => exact absurd rfl hne
  | cons item items =>
    cases item with
    | endTag name => exact ⟨closesElement_endTag hnext (render items), _, rfl⟩
    | _ => cases hnext

/-- Where content is pending, the first item of a coherent list is read back: it is the content, or
the end tag when there is no content. -/
theorem lexeme_render_some (offset : Nat) {element : RawElement} {item : Item}
    {items : List Item} (h : coherent (some element) (item :: items) = true) :
    (∃ notices, (Cursor.mk offset (render (item :: items)) (some element)).lexeme
        = ⟨item.kind offset, item.render, render items, notices⟩)
      ∧ coherent item.opens? items = true := by
  cases item with
  | content other run hne hplain =>
    simp only [coherent, Bool.and_eq_true, beq_iff_eq] at h
    rcases h with ⟨⟨rfl, hitems⟩, hcontext⟩
    have hrest : render items = [] ∧ (∀ s ∈ run.tails, closesElement other s = false)
        ∨ closesElement other (render items) = true ∧ ∃ r, render items = '<' :: r := by
      cases items with
      | nil => exact .inl ⟨rfl, by simpa using hcontext⟩
      | cons next items => exact .inr (closesElement_render (List.cons_ne_nil next items) hcontext)
    rcases readRawText_content offset hplain hrest with ⟨notices, hread⟩
    have hlexeme : (Cursor.mk offset (run ++ render items) (some other)).lexeme
        = ⟨.cdata run (some other), run, render items, notices⟩ := by
      simp [Cursor.lexeme, hread, hne]
    exact ⟨⟨notices, hlexeme⟩, hitems⟩
  | endTag name =>
    simp only [coherent, Bool.and_eq_true] at h
    have hcloses := closesElement_endTag h.1 (render items)
    -- the content is empty, so the end tag is read in its place
    have hempty : (readRawText offset element ((Item.endTag name).render ++ render items)).raw
        = [] := by
      have hbreak := Text.breakAt_eq (p := closesElement element) (s := [])
        (t := (Item.endTag name).render ++ render items)
        (fun b hb hne => absurd (List.suffix_nil.1 hb) hne) (.inr hcloses)
      rw [List.nil_append] at hbreak
      simp [readRawText, hbreak]
    have hlexeme : (Cursor.mk offset ((Item.endTag name).render ++ render items)
        (some element)).lexeme
          = ⟨(Item.endTag name).kind offset, (Item.endTag name).render, render items, []⟩ := by
      simp only [Cursor.lexeme, hempty, if_true, readToken_endTag]
    exact ⟨⟨[], hlexeme⟩, h.2⟩
  | _ => simp [coherent, Item.isEndOf] at h

theorem Item.render_ne_nil (item : Item) : item.render ≠ [] := by
  cases item with
  | text run hne => exact hne
  | content element run hne => exact hne
  | _ => simp [Item.render]

/-- A step of the scanner on a coherent list takes its first item. -/
theorem next?_render (offset : Nat) {pending : Option RawElement} {item : Item}
    {items : List Item} (h : coherent pending (item :: items) = true) :
    ∃ step, (Cursor.mk offset (render (item :: items)) pending).next? = some step
      ∧ step.token = item.token offset
      ∧ step.next = ⟨offset + Text.byteLength item.render, render items, item.opens?⟩
      ∧ coherent item.opens? items = true := by
  have hlexeme : (∃ notices, (Cursor.mk offset (render (item :: items)) pending).lexeme
        = ⟨item.kind offset, item.render, render items, notices⟩)
      ∧ coherent item.opens? items = true := by
    cases pending with
    | none => exact lexeme_render_none offset h
    | some element => exact lexeme_render_some offset h
  rcases hlexeme with ⟨⟨notices, hread⟩, hitems⟩
  have hmore : render (item :: items) ≠ [] :=
    List.append_ne_nil_of_left_ne_nil item.render_ne_nil _
  refine ⟨_, if_neg hmore, ?_, ?_, hitems⟩
  · rw [hread]
    rfl
  · rw [hread]
    simp [Cursor.place, Span.ofText, Item.opens?_kind]

/-- From the start of a coherent list on, the tokens are those of its items. -/
theorem steps_render (offset : Nat) (pending : Option RawElement) (items : List Item)
    (h : coherent pending items = true) :
    (Cursor.mk offset (render items) pending).steps.map (·.token) = tokensFrom offset items := by
  induction items generalizing offset pending with
  | nil =>
    have hnone : (Cursor.mk offset (render []) pending).next? = none := rfl
    rw [Cursor.steps_of_none hnone]
    rfl
  | cons item items ih =>
    rcases next?_render offset h with ⟨step, hstep, htoken, hnext, hitems⟩
    have htail := ih (offset + Text.byteLength item.render) item.opens? hitems
    rw [Cursor.steps_of_some hstep, List.map_cons, htoken, hnext, htail]
    rfl

/-- Scanning a rendered canonical document gives back its items, each as one token with its kind,
its parts and its span. -/
theorem scan_render (items : List Item) (h : coherent none items = true) :
    scan (render items) = tokensFrom 0 items :=
  steps_render 0 none items h

/-- A document whose items end like the markup that follows them, or like their own closing text:
`1</<!--a---><style a=b></</STYLE>`. -/
def overlaps : List Item :=
  [.text ['1', '<', '/'] (by decide) (by decide),
    .comment ['a', '-'] (by decide) (by decide),
    .startTag ⟨['s', 't', 'y', 'l', 'e'], by decide, by simp [endsTagName, isSpace]⟩
      [⟨['a'], by decide, by simp [endsAttributeName, endsTagName, isSpace], by decide,
        .unquoted ['b'] (by decide) (by simp [isUnquotedChar, isSpace]) (by decide)⟩] false,
    .content .style ['<', '/'] (by decide) (by decide),
    .endTag ⟨['S', 'T', 'Y', 'L', 'E'], by decide, by simp [endsTagName, isSpace]⟩]

theorem scan_render_overlaps :
    coherent none overlaps = true
      ∧ scan (render overlaps) =
        [⟨.text, ['1', '<', '/'], ⟨0, 3⟩⟩,
          ⟨.comment ['a', '-'], ['<', '!', '-', '-', 'a', '-', '-', '-', '>'], ⟨3, 12⟩⟩,
          ⟨.startTag ['s', 't', 'y', 'l', 'e']
              [⟨['a'], ['b'], .unquoted, ['a', '=', 'b'], ⟨19, 22⟩⟩] false,
            ['<', 's', 't', 'y', 'l', 'e', ' ', 'a', '=', 'b', '>'], ⟨12, 23⟩⟩,
          ⟨.cdata ['<', '/'] (some .style), ['<', '/'], ⟨23, 25⟩⟩,
          ⟨.endTag ['S', 'T', 'Y', 'L', 'E'], ['<', '/', 'S', 'T', 'Y', 'L', 'E', '>'],
            ⟨25, 33⟩⟩] := by
  have hcoherent : coherent none overlaps = true := by decide
  refine ⟨hcoherent, ?_⟩
  rw [scan_render overlaps hcoherent]
  rfl

end HtmlLint.Canonical
