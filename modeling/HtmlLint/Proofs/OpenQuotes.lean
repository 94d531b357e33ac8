import HtmlLint.Proofs.TagForms

/-!
# Quotes that are never closed

A value may be opened by a quote that does not occur again in the document. Such a value does not run
to the end of the document: it ends at the first place at which a tag may end, and its tag ends with
it. All that follows is scanned as further tokens.

* `Attribute.OpensValueAt` — a quote opens the value of an attribute at an offset, as the text of the
  attribute shows it.
* `Attribute.cutOff_of_openQuote` — where the quote is not closed, the attribute is cut off.
* `TagSite.of_cutOff` — a tag ends in the attribute in which it is cut off.
-/

namespace HtmlLint

/-- The tokens behind a token are scanned from what the document has left there. -/
theorem flatMap_raw_of_split {document : List Char} {before behind : List Token} {t : Token}
    (h : scan document = before ++ t :: behind) :
    behind.flatMap (·.raw) = Text.dropBytes t.span.stop document := by
  rcases exists_cursor_of_split h with ⟨here, hin, -, rfl, rfl, -⟩
  rw [Cursor.flatMap_raw_steps, hin.rest_after]

/-! ## Opening quotes -/

/-- Behind the name of an attribute there is one way to tell the sign from what follows it, if that
does not go on with a space. -/
theorem IsSign.append_inj {x y s t : List Char} (hx : IsSign x) (hy : IsSign y)
    (hs : ∀ c ∈ s.head?, isSpace c = false) (ht : ∀ c ∈ t.head?, isSpace c = false)
    (h : x ++ s = y ++ t) : x = y ∧ s = t := by
  rcases hx with ⟨b, d, rfl, hb, hd⟩
  rcases hy with ⟨b', d', rfl, hb', hd'⟩
  simp only [List.append_assoc, List.cons_append] at h
  -- the spaces before the sign are those up to the first `=`, and those behind it the next run
  have hequals : ∀ u : List Char, ∀ c ∈ ('=' :: u).head?, isSpace c = false := by
    rintro u c ⟨⟩
    rfl
  have hbefore := congrArg (List.takeWhile isSpace) h
  rw [Text.takeWhile_eq hb (hequals _), Text.takeWhile_eq hb' (hequals _)] at hbefore
  subst hbefore
  have hrest := (List.cons.inj (List.append_cancel_left h)).2
  have hbehind := congrArg (List.takeWhile isSpace) hrest
  rw [Text.takeWhile_eq hd hs, Text.takeWhile_eq hd' ht] at hbehind
  subst hbehind
  exact ⟨rfl, List.append_cancel_left hrest⟩

namespace Attribute

/-- The text of the attribute has a quote `q` behind its name and an equals sign, and the value starts
after the quote, at offset `start` of the document. -/
def OpensValueAt (a : Attribute) (q : Char) (start : Nat) : Prop :=
  (q = '"' ∨ q = '\x27') ∧ ∃ sign body, IsSign sign ∧ a.raw = a.name ++ (sign ++ q :: body)
    ∧ start = a.span.start + Text.byteLength (a.name ++ (sign ++ [q]))

/-- An attribute whose value is opened by a quote has that quote, and it is closed right at the end of
the attribute unless the attribute is cut off. -/
theorem cutOff_of_openQuote {a : Attribute} {q : Char} {sign body rest : List Char}
    (hform : a.Written ∨ ∃ q, a.CutOff q rest) (hq : q = '"' ∨ q = '\x27') (hsign : IsSign sign)
    (hraw : a.raw = a.name ++ (sign ++ q :: body)) (hopen : q ∉ body) :
    body = a.value ∧ a.CutOff q rest := by
  have hquote : ∀ s : List Char, ∀ c ∈ (q :: s).head?, isSpace c = false := by
    rintro s c ⟨⟩
    rcases hq with rfl | rfl <;> rfl
  have hmarked : ∀ {r : Char} {s t : List Char}, a.quote.mark? = some r → IsSign t →
      a.raw = a.name ++ (t ++ r :: s) → q = r ∧ body = s := by
    intro r s t hmark ht hother
    have hspace : ∀ c ∈ (r :: s).head?, isSpace c = false := by
      rintro c ⟨⟩
      revert hmark
      cases a.quote <;> rintro ⟨⟩ <;> rfl
    rw [hraw] at hother
    exact List.cons.inj
      (hsign.append_inj ht (hquote body) hspace (List.append_cancel_left hother)).2
  rcases hform with hwritten | ⟨r, hcut⟩
  · exfalso
    cases hwritten with
    | missing _ _ hbare =>
      -- a name alone has no room for the sign
      rw [hraw] at hbare
      exact hsign.ne_nil (List.append_eq_nil_iff.1 (List.append_right_eq_self.1 hbare)).1
    | unquoted _ ht hother hplain hbare =>
      have hspace : ∀ c ∈ a.value.head?, isSpace c = false := by
        intro c hc
        have hc := hplain c (List.mem_of_mem_head? hc)
        simp only [isUnquotedChar, Bool.and_eq_true, Bool.not_eq_true'] at hc
        exact hc.1
      rw [hraw] at hother
      have hvalue := (hsign.append_inj ht (hquote body) hspace
        (List.append_cancel_left hother)).2
      rw [← hvalue] at hbare
      have hother := hbare q rfl
      rcases hq with rfl | rfl
      · exact hother.1 rfl
      · exact hother.2 rfl
    | enclosed hmark ht hother =>
      rcases hmarked hmark ht hother with ⟨rfl, rfl⟩
      exact hopen (by simp)
  · rcases hcut.raw with ⟨t, ht, hother⟩
    rcases hmarked hcut.mark ht hother with ⟨rfl, rfl⟩
    exact ⟨rfl, hcut⟩

end Attribute

/-! ## Recovery -/

namespace TagSite

variable {document passed name s lead rest : List Char} {t : Token} {tail : TagTail} {a : Attribute}
  {q : Char}

/-- A value stands in the document right behind its quote, and its attribute ends with `body`. -/
theorem place_value (h : TagSite document t passed name s tail)
    (hread : ReadAfter (Text.byteLength (passed ++ '<' :: name)) s lead a rest)
    {sign body : List Char} (hraw : a.raw = a.name ++ (sign ++ q :: body)) :
    ∃ x, document = x ++ (body ++ rest)
      ∧ a.span.start + Text.byteLength (a.name ++ (sign ++ [q])) = Text.byteLength x
      ∧ a.span.stop = Text.byteLength (x ++ body) := by
  rcases h.place hread with ⟨hdocument, hspan⟩
  refine ⟨(passed ++ '<' :: (name ++ lead)) ++ (a.name ++ (sign ++ [q])), ?_, ?_, ?_⟩
  · rw [hdocument, hraw]
    simp
  · rw [hspan, Text.byteLength_append (passed ++ _)]
    rfl
  · rw [hspan, hraw]
    simp [Span.ofText, Nat.add_assoc]

/-- The attribute in which a tag is cut off is its last one. The tag does not close itself, and it ends
with the value, or with the `>` there. -/
theorem of_cutOff (h : TagSite document t passed name s tail)
    (hread : ReadAfter (Text.byteLength (passed ++ '<' :: name)) s lead a rest)
    (hcut : a.CutOff q rest) :
    (readTagTail a.span.stop rest).attributes = [] ∧ tail.ending ≠ .selfClosed
      ∧ t.span.stop = a.span.stop + if rest.head? = some '>' then 1 else 0 := by
  rcases hread.of_cutOff hcut with ⟨hlast, hending, hraw⟩
  rw [← h.read] at hending hraw
  refine ⟨hlast, hending, ?_⟩
  rw [h.stop, h.raw, hraw, (h.place hread).2]
  split
  · simp [Span.ofText, Nat.add_assoc, show '>'.utf8Size = 1 from rfl]
  · simp [Span.ofText, Nat.add_assoc]

end TagSite

/-- A value that is opened by a quote without any further such quote in the document ends at the first
offset from its start on at which a `>` stands or markup opens, or with the document. Its attribute
is the last one of its tag. The tag does not close itself and ends with the value, or with the `>`
there, and everything behind it is scanned as further tokens. -/
theorem openQuote_ends_tag (document : List Char) (t : Token) (ht : t ∈ scan document)
    {name : List Char} {attributes : List Attribute} {selfClosing : Bool}
    (hkind : t.kind = .startTag name attributes selfClosing) {a : Attribute} (ha : a ∈ attributes)
    {q : Char} {start : Nat} (hvalue : a.OpensValueAt q start)
    (hopen : q ∉ Text.dropBytes start document) :
    let stop := start + Text.byteLength a.value
    IsLeast {n | start ≤ n ∧ (n = Text.byteLength document
        ∨ Text.HoldsAt (atTagBoundary · = true) document n)} stop
      ∧ a.value = Span.slice ⟨start, stop⟩ document
      ∧ a.quote.mark? = some q ∧ a.span.stop = stop
      ∧ attributes.getLast? = some a ∧ selfClosing = false
      ∧ t.span.stop
        = stop + (if (Text.dropBytes stop document).head? = some '>' then 1 else 0)
      ∧ ∃ before behind, scan document = before ++ t :: behind
        ∧ behind.flatMap (·.raw) = Text.dropBytes t.span.stop document := by
  intro stop
  rcases exists_tagSite ht hkind with ⟨passed, s, tail, hsite, rfl, rfl⟩
  rcases List.append_of_mem ha with ⟨before, behind, hattributes⟩
  rcases hsite.exists_readAfter hattributes with ⟨lead, rest, hread, hbehind⟩
  rcases hvalue with ⟨hq, sign, body, hsign, hraw, hstart⟩
  -- `x` is the document up to the value
  rcases hsite.place_value hread hraw with ⟨x, hdocument, hlength, hend⟩
  rw [← hstart] at hlength
  rw [hlength, hdocument, Text.dropBytes_byteLength_append] at hopen
  rcases Attribute.cutOff_of_openQuote hread.form hq hsign hraw
    (fun hmem => hopen (List.mem_append_left rest hmem)) with ⟨rfl, hcut⟩
  have hstop : a.span.stop = stop := by
    rw [hend, Text.byteLength_append, ← hlength]
  have hrest : Text.dropBytes stop document = rest := by
    rw [← hstop, hsite.dropBytes_stop hread]
  rcases hsite.of_cutOff hread hcut with ⟨hlast, hending, htag⟩
  refine ⟨?_, ?_, hcut.mark, hstop, ?_, by simpa using hending, ?_, ?_⟩
  · have hleast := Text.isLeast_breakAt_behind atTagBoundary x (a.value ++ rest)
    rwa [hcut.boundary, ← hlength, ← hdocument] at hleast
  · have hspan : (⟨start, stop⟩ : Span) = .ofText (Text.byteLength x) a.value := by
      rw [← hlength]
      rfl
    rw [hspan, hdocument, Span.slice_ofText]
  · rw [hattributes, hbehind, hlast]
    simp
  · rw [hrest, ← hstop, htag]
  · rcases List.append_of_mem ht with ⟨earlier, later, hscan⟩
    exact ⟨earlier, later, hscan, flatMap_raw_of_split hscan⟩

/-- The start tag of `<p b = "é a>x<i c='>'>`, whose value lacks its closing quote. -/
def unclosedTag : Token :=
  { kind := .startTag ['p'] [⟨['b'], ['é', ' ', 'a'], .double, "b = \"é a".toList, ⟨3, 12⟩⟩] false
    raw := "<p b = \"é a>".toList
    span := ⟨0, 13⟩ }

/-- The value of `<p b = "é a>x<i c='>'>` ends at its first `>`, and the tag one byte later. -/
theorem unclosedTag_ends :
    unclosedTag ∈ scan "<p b = \"é a>x<i c='>'>".toList
      ∧ IsLeast {n | 8 ≤ n ∧ (n = Text.byteLength "<p b = \"é a>x<i c='>'>".toList
          ∨ Text.HoldsAt (atTagBoundary · = true) "<p b = \"é a>x<i c='>'>".toList n)} 12
      ∧ unclosedTag.span.stop = 12 + 1
      ∧ ∃ before behind, scan "<p b = \"é a>x<i c='>'>".toList = before ++ unclosedTag :: behind
        ∧ behind.flatMap (·.raw) = "x<i c='>'>".toList := by
  have hscan : unclosedTag ∈ scan "<p b = \"é a>x<i c='>'>".toList := by decide +kernel
  have hopens : Attribute.OpensValueAt
      ⟨['b'], ['é', ' ', 'a'], .double, "b = \"é a".toList, ⟨3, 12⟩⟩ '"' 8 :=
    ⟨.inl rfl, [' ', '=', ' '], ['é', ' ', 'a'], ⟨[' '], [' '], rfl, by simp [isSpace], by simp [isSpace]⟩,
      rfl, by decide +kernel⟩
  have hafter : Text.dropBytes 13 "<p b = \"é a>x<i c='>'>".toList = "x<i c='>'>".toList := by
    decide +kernel
  rcases openQuote_ends_tag _ unclosedTag hscan rfl List.mem_cons_self hopens (by decide +kernel)
    with ⟨hleast, -, -, -, -, -, -, before, behind, hsplit, hrest⟩
  exact ⟨hscan, hleast, rfl, before, behind, hsplit, hrest.trans hafter⟩

end HtmlLint
