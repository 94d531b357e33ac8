import HtmlLint.Proofs.Canonical
import HtmlLint.Proofs.Cuts

/-!
# Rendered tags are read back

A tag is read from left to right, and each of its parts ends where the next one starts. So each part
is read back before any text that can follow it: `EndsAttribute` is what can follow an attribute,
and nothing is asked of what follows a tag.
-/

namespace HtmlLint.Canonical

/-! ## Attributes -/

/-- The text after an attribute: the end of the tag, or a space with more of the tag. -/
def EndsAttribute (t : List Char) : Prop :=
  (∃ r, t = '>' :: r) ∨ ∃ c r, t = ' ' :: c :: r ∧ isSpace c = false ∧ c ≠ '='

namespace EndsAttribute

variable {t : List Char}

theorem endsName (h : EndsAttribute t) : ∀ c ∈ t.head?, (!endsAttributeName c) = false := by
  rcases h with ⟨r, rfl⟩ | ⟨c, r, rfl, -, -⟩ <;> simp [endsAttributeName, endsTagName, isSpace]

theorem endsValue (h : EndsAttribute t) : ∀ c ∈ t.head?, isUnquotedChar c = false := by
  rcases h with ⟨r, rfl⟩ | ⟨c, r, rfl, -, -⟩ <;> simp [isUnquotedChar, isSpace]

/-- No value follows. -/
theorem dropSpace_head (h : EndsAttribute t) : (t.dropWhile isSpace).head? ≠ some '=' := by
  rcases h with ⟨r, rfl⟩ | ⟨c, r, rfl, hspace, hne⟩
  · simp [isSpace]
  · have hdrop : (' ' :: c :: r).dropWhile isSpace = c :: r := by
      rw [List.dropWhile_cons, if_pos (by decide), List.dropWhile_cons, if_neg (by simp [hspace])]
    simp [hdrop, hne]

end EndsAttribute

/-- A quoted value is read up to its closing quote, whatever follows. -/
theorem readQuoted_eq {q : Char} {value rest : List Char} (quote : Quote) (hq : q ∉ value) :
    readQuoted q quote (value ++ q :: rest) = ⟨value, quote, q :: value ++ [q], true, rest⟩ := by
  have hin : ∀ c ∈ value, (c != q) = true := by
    intro c hc
    simp only [bne_iff_ne, ne_eq]
    rintro rfl
    exact hq hc
  have hstop : ∀ c ∈ (q :: rest).head?, (c != q) = false := by simp
  simp [readQuoted, Text.takeWhile_eq hin hstop, Text.dropWhile_eq hin hstop]

/-- A value is read back before the end of its attribute. -/
theorem readValue_eq {value t : List Char} (hin : ∀ c ∈ value, isUnquotedChar c = true)
    (hbare : value.head? ≠ some '"' ∧ value.head? ≠ some '\x27') (hne : value ≠ [])
    (ht : EndsAttribute t) :
    readValue (value ++ t) = ⟨value, .unquoted, value, true, t⟩ := by
  cases value with
  | nil => exact absurd rfl hne
  | cons c value =>
    have hdouble : c ≠ '"' := by simpa using hbare.1
    have hsingle : c ≠ '\x27' := by simpa using hbare.2
    have htake := Text.takeWhile_eq hin ht.endsValue
    have hdrop := Text.dropWhile_eq hin ht.endsValue
    rw [List.cons_append] at htake hdrop ⊢
    unfold readValue
    split
    · next s h => exact absurd (List.cons.inj h).1 hdouble
    · next s h => exact absurd (List.cons.inj h).1 hsingle
    · rw [htake, hdrop]

/-- Where `=` follows a name at once, the value is read right after it. -/
theorem readAttribute_equals (offset : Nat) (c : Char) {s : List Char} (body : List Char)
    (hname : ∀ d ∈ s, endsAttributeName d = false) (hbody : ∀ d ∈ body.head?, isSpace d = false)
    (hclosed : (readValue body).closed = true) :
    readAttribute offset c (s ++ '=' :: body) =
      ⟨⟨c :: s, (readValue body).value, (readValue body).quote,
          (c :: s) ++ '=' :: (readValue body).raw,
          .ofText offset ((c :: s) ++ '=' :: (readValue body).raw)⟩,
        (readValue body).rest, []⟩ := by
  have hin : ∀ d ∈ s, (!endsAttributeName d) = true := by
    intro d hd
    simp [hname d hd]
  have hequals : ∀ d ∈ ('=' :: body).head?, (!endsAttributeName d) = false := by
    simp [endsAttributeName]
  have hspace : body.takeWhile isSpace = [] ∧ body.dropWhile isSpace = body := by
    cases body with
    | nil => simp
    | cons d body => simp [hbody d rfl]
  have htake := Text.takeWhile_eq hin hequals
  have hdrop := Text.dropWhile_eq hin hequals
  simp [readAttribute, htake, hdrop, hspace, hclosed, isSpace]

/-- Where no `=` follows a name, the attribute is the name. -/
theorem readAttribute_missing (offset : Nat) (c : Char) {s t : List Char}
    (hname : ∀ d ∈ s, endsAttributeName d = false) (ht : EndsAttribute t) :
    readAttribute offset c (s ++ t) =
      ⟨⟨c :: s, [], .missing, c :: s, .ofText offset (c :: s)⟩, t, []⟩ := by
  have hin : ∀ d ∈ s, (!endsAttributeName d) = true := by
    intro d hd
    simp [hname d hd]
  have htake := Text.takeWhile_eq hin ht.endsName
  have hdrop := Text.dropWhile_eq hin ht.endsName
  have hhead := ht.dropSpace_head
  unfold readAttribute
  simp only [htake, hdrop]
  split
  · next r h => exact absurd (by simp [h]) hhead
  · rfl

/-- An attribute is read back before what may follow it. -/
theorem readAttribute_render (offset : Nat) (a : WrittenAttribute) {c : Char} {s t : List Char}
    (hname : a.name = c :: s) (ht : EndsAttribute t) :
    readAttribute offset c (s ++ (a.value.render ++ t)) = ⟨a.place offset, t, []⟩ := by
  have hplain : ∀ d ∈ s, endsAttributeName d = false := by
    intro d hd
    exact a.plain d (by simp [hname, hd])
  unfold WrittenAttribute.place WrittenAttribute.render
  rw [hname]
  cases a.value with
  | double value hq =>
    have hread : readValue ('"' :: (value ++ '"' :: t)) = _ := readQuoted_eq .double hq
    have hequals := readAttribute_equals offset c ('"' :: (value ++ '"' :: t)) hplain
      (by simp [isSpace]) (by rw [hread])
    simpa [WrittenValue.render, WrittenValue.text, WrittenValue.quote, hread] using hequals
  | single value hq =>
    have hread : readValue ('\x27' :: (value ++ '\x27' :: t)) = _ := readQuoted_eq .single hq
    have hequals := readAttribute_equals offset c ('\x27' :: (value ++ '\x27' :: t)) hplain
      (by simp [isSpace]) (by rw [hread])
    simpa [WrittenValue.render, WrittenValue.text, WrittenValue.quote, hread] using hequals
  | unquoted value hne hchars hbare =>
    have hread := readValue_eq hchars hbare hne ht
    have hfirst : ∀ d ∈ (value ++ t).head?, isSpace d = false := by
      cases value with
      | nil => exact absurd rfl hne
      | cons d value =>
        have hd : isUnquotedChar d = true := hchars d List.mem_cons_self
        simp only [isUnquotedChar, Bool.and_eq_true, Bool.not_eq_true'] at hd
        simp [hd.1]
    have hequals := readAttribute_equals offset c (value ++ t) hplain hfirst (by rw [hread])
    simpa [WrittenValue.render, WrittenValue.text, WrittenValue.quote, hread] using hequals
  | missing =>
    simpa [WrittenValue.render, WrittenValue.text, WrittenValue.quote] using
      readAttribute_missing offset c hplain ht

/-! ## Tags -/

/-- The first character of a name, which starts an attribute wherever it stands in a tag. -/
theorem WrittenAttribute.exists_first (a : WrittenAttribute) :
    ∃ c s, a.name = c :: s ∧ endsTagName c = false ∧ c ≠ '=' ∧ c ≠ '<' := by
  rcases hname : a.name with _ | ⟨c, s⟩
  · exact absurd hname a.nonempty
  · have hplain := a.plain c (by simp [hname])
    have hmarkup := a.noMarkup
    simp only [endsAttributeName, Bool.or_eq_false_iff, beq_eq_false_iff_ne] at hplain
    refine ⟨c, s, rfl, hplain.1, hplain.2, ?_⟩
    simpa [hname] using hmarkup

/-- What follows an attribute of a rendered tag ends the attribute. -/
theorem endsAttribute_renderAll (attributes : List WrittenAttribute) (selfClosing : Bool)
    (rest : List Char) :
    EndsAttribute (WrittenAttribute.renderAll attributes selfClosing ++ rest) := by
  cases attributes with
  | nil =>
    cases selfClosing with
    | false => exact .inl ⟨rest, rfl⟩
    | true => exact .inr ⟨'/', '>' :: rest, rfl, by decide, by decide⟩
  | cons a attributes =>
    rcases a.exists_first with ⟨c, s, hname, hplain, hequals, -⟩
    have hspace : isSpace c = false := by
      simp only [endsTagName, Bool.or_eq_false_iff] at hplain
      exact hplain.1.1
    refine .inr ⟨c, s ++ (a.value.render
      ++ (WrittenAttribute.renderAll attributes selfClosing ++ rest)), ?_, hspace, hequals⟩
    simp [WrittenAttribute.renderAll, WrittenAttribute.render, hname]

/-- What follows the name of a start tag is read back. -/
theorem readTagTail_render (offset : Nat) (attributes : List WrittenAttribute)
    (selfClosing : Bool) (rest : List Char) :
    readTagTail offset (WrittenAttribute.renderAll attributes selfClosing ++ rest) =
      ⟨WrittenAttribute.placeAll offset attributes,
        WrittenAttribute.renderAll attributes selfClosing,
        if selfClosing then .selfClosed else .closed, rest, []⟩ := by
  induction attributes generalizing offset with
  | nil =>
    cases selfClosing with
    | false => exact readTagTail_close offset rest
    | true =>
      have hspace := readTagTail_space offset (by decide : isSpace ' ' = true) ('/' :: '>' :: rest)
      rw [readTagTail_selfClose] at hspace
      exact hspace
  | cons a attributes ih =>
    rcases a.exists_first with ⟨c, s, hname, hplain, -, hmarkup⟩
    have hread := readAttribute_render (offset + 1) a hname
      (endsAttribute_renderAll attributes selfClosing rest)
    have htail := ih (offset + 1 + Text.byteLength a.render)
    have hstop : (a.place (offset + 1)).span.stop = offset + 1 + Text.byteLength a.render := rfl
    have hraw : (a.place (offset + 1)).raw = a.render := rfl
    -- the tag goes on with a space and the first character of the name
    have hshape : WrittenAttribute.renderAll (a :: attributes) selfClosing ++ rest
        = ' ' :: c :: (s ++ (a.value.render
          ++ (WrittenAttribute.renderAll attributes selfClosing ++ rest))) := by
      simp [WrittenAttribute.renderAll, WrittenAttribute.render, hname]
    rw [hshape, readTagTail_space offset (by decide),
      readTagTail_attribute (offset + 1) hplain (opensMarkup_of_ne hmarkup _)]
    simp only [hread, hstop, htail, hraw, TagTail.afterAttribute, TagTail.afterGap,
      WrittenAttribute.placeAll]
    simp [WrittenAttribute.renderAll]

namespace TagName

/-- A name ends at the first character that cannot belong to it. -/
theorem takeWhile_append (name : TagName) {t : List Char}
    (ht : ∀ c ∈ t.head?, endsTagName c = true) :
    (name.text ++ t).takeWhile (!endsTagName ·) = name.text
      ∧ (name.text ++ t).dropWhile (!endsTagName ·) = t := by
  have hin : ∀ c ∈ name.text, (!endsTagName c) = true := by
    intro c hc
    simp [name.plain c hc]
  have hstop : ∀ c ∈ t.head?, (!endsTagName c) = false := by
    intro c hc
    simp [ht c hc]
  exact ⟨Text.takeWhile_eq hin hstop, Text.dropWhile_eq hin hstop⟩

theorem exists_letter (name : TagName) : ∃ c s, name.text = c :: s ∧ c.isAlpha = true := by
  have hletter := name.letter
  rcases hname : name.text with _ | ⟨c, s⟩
  · simp [hname, startsWithLetter] at hletter
  · exact ⟨c, s, rfl, by simpa [hname, startsWithLetter] using hletter⟩

end TagName

theorem readToken_of_opening (offset : Nat) {s rest : List Char} {o : Opening}
    (h : opening? s = some (o, rest)) : readToken offset s = readMarkup offset o rest := by
  simp [readToken, h]

/-- A start tag is read back before any rest. -/
theorem readToken_startTag (offset : Nat) (name : TagName) (attributes : List WrittenAttribute)
    (selfClosing : Bool) (rest : List Char) :
    readToken offset ((Item.startTag name attributes selfClosing).render ++ rest) =
      ⟨(Item.startTag name attributes selfClosing).kind offset,
        (Item.startTag name attributes selfClosing).render, rest, []⟩ := by
  rcases name.exists_letter with ⟨c, s, hname, hletter⟩
  have hends : ∀ d ∈ (WrittenAttribute.renderAll attributes selfClosing ++ rest).head?,
      endsTagName d = true := by
    rcases endsAttribute_renderAll attributes selfClosing rest with ⟨r, h⟩ | ⟨d, r, h, -, -⟩ <;>
      simp [h, endsTagName, isSpace]
  rcases name.takeWhile_append hends with ⟨htake, hdrop⟩
  have hopen : opening? ((Item.startTag name attributes selfClosing).render ++ rest) = some
      (.startTag, name.text ++ (WrittenAttribute.renderAll attributes selfClosing ++ rest)) := by
    simpa [Item.render, hname] using opening?_letter hletter
      (s ++ (WrittenAttribute.renderAll attributes selfClosing ++ rest))
  rw [readToken_of_opening offset hopen]
  simp only [readMarkup, readStartTag, htake, hdrop, readTagTail_render]
  cases selfClosing <;> rfl

/-- An end tag is read back before any rest. -/
theorem readToken_endTag (offset : Nat) (name : TagName) (rest : List Char) :
    readToken offset ((Item.endTag name).render ++ rest) =
      ⟨(Item.endTag name).kind offset, (Item.endTag name).render, rest, []⟩ := by
  rcases name.takeWhile_append (t := '>' :: rest) (by simp [endsTagName]) with ⟨htake, hdrop⟩
  have hletter : startsWithLetter (name.text ++ '>' :: rest) = true := by
    rcases name.exists_letter with ⟨c, s, hname, hletter⟩
    simp [hname, startsWithLetter, hletter]
  have hopen : opening? ((Item.endTag name).render ++ rest) = some
      (.endTag, name.text ++ '>' :: rest) := by
    simp [Item.render, opening?, hletter]
  have hbreak : Text.breakAt atTagBoundary ('>' :: rest) = ([], '>' :: rest) := by
    simp [Text.breakAt_cons, atTagBoundary]
  rw [readToken_of_opening offset hopen]
  simp [readMarkup, readEndTag, htake, hdrop, hbreak, Item.kind, Item.render, Opening.text]

end HtmlLint.Canonical
