import HtmlLint.Proofs.Bytes.Agreement
import HtmlLint.Proofs.OpenTags
import HtmlLint.Proofs.Shifting

/-!
# Runs of text

Two questions are asked at every place of a document: whether markup opens there, and which of its
forms it has. They are answered one after the other, so both have to agree for no place to be left
without an answer.

* `opensAt_eq_bytes` — the first question is about three bytes.
* `Cursor.exists_form` — where the answer is yes, the second question has an answer, and what is
  read there is not text.
* `Cursor.StandsIn.opensAt_in_text`, `Cursor.kind_after_text` — what one text does: no markup opens
  in it, and no other text follows it.

`text_runs_between_markup` puts them together: the texts among the tokens are the runs of a document
in which no markup opens, each as long as it can be.
-/

namespace HtmlLint

/-- The token is the content of an element. -/
def Token.isContent (t : Token) : Bool :=
  match t.kind with
  | .cdata _ (some _) => true
  | _ => false

/-! ## The two questions -/

/-- Whether markup opens at an offset is told by the bytes from there on, also at an offset inside
of a character. -/
theorem opensAt_eq_bytes (document : List Char) (n : Nat) :
    opensAt document n = opensMarkupBytes ((Text.bytes document).drop n) := by
  cases hboundary : Text.isBoundary document n with
  | true =>
    rcases Text.isBoundary_iff.1 hboundary with ⟨a, b, rfl, rfl⟩
    simp only [opensAt, hboundary, Text.drop_bytes, Text.dropBytes_byteLength_append,
      Bool.true_and, opensMarkupBytes_bytes]
  | false =>
    have hnone : opensMarkupBytes ((Text.bytes document).drop n) = false := by
      by_cases hn : n ≤ Text.byteLength document
      · -- the bytes go on with the rest of a character, which is not `<`
        rcases Text.isContinuation_of_not_isBoundary hboundary hn with ⟨b, hb, hcontinues⟩
        rcases List.getElem?_eq_some_iff.1 hb with ⟨hlt, rfl⟩
        rw [List.drop_eq_getElem_cons hlt]
        exact sees_opensMarkup.2 _ _ hcontinues
      · have hend : (Text.bytes document).drop n = [] := by
          apply List.drop_eq_nil_of_le
          simpa [Text.length_bytes] using Nat.le_of_not_le hn
        rw [hend]
        rfl
    simp [opensAt, hboundary, hnone]

namespace Cursor

variable {here : Cursor} {document : List Char}

theorem StandsIn.opensAt_offset (hin : here.StandsIn document) :
    opensAt document here.offset = opensMarkup here.rest := by
  simp [opensAt, hin.isBoundary_offset, hin.dropBytes_offset]

/-- Where markup opens it has one of the forms, and its reader reads it from there. What is read at
the cursor is that markup, unless the content of an element is. -/
theorem exists_form (h : opensMarkup here.rest = true) :
    ∃ op s, form? (Text.bytes here.rest) = some op
      ∧ here.rest = op.text ++ s
      ∧ (readMarkup here.offset op s).kind ≠ .text
      ∧ (here.token.isContent = false → here.lexeme = readMarkup here.offset op s) := by
  rcases Option.isSome_iff_exists.1 h with ⟨⟨op, s⟩, hopening⟩
  refine ⟨op, s, ?_, opening?_append hopening, ?_, ?_⟩
  · rw [form?_bytes, hopening]
    rfl
  · intro htext
    have hkind := readMarkup_kind here.offset op s
    rw [htext] at hkind
    exact hkind
  · intro hplain
    rcases here.lexeme_cases with ⟨element, hcontent⟩ | ⟨op', s', hopening', hread⟩ | ⟨hnone, -⟩
    · have hkind : here.token.isContent = true := by
        simp [Token.isContent, token, place, hcontent, readRawText]
      rw [hplain] at hkind
      cases hkind
    · rw [hopening] at hopening'
      cases hopening'
      exact hread
    · rw [hopening] at hnone
      cases hnone

/-- What is neither text nor the content of an element was read where markup opens. -/
theorem opensMarkup_of_kind (htext : here.token.kind ≠ .text)
    (hcontent : here.token.isContent = false) : opensMarkup here.rest = true := by
  rcases here.lexeme_cases with ⟨element, hread⟩ | ⟨op, s, hopening, -⟩ | ⟨-, hread⟩
  · simp [Token.isContent, token, place, hread, readRawText] at hcontent
  · simp [opensMarkup, hopening]
  · refine absurd ?_ htext
    simp [token, place, hread, readText_kind]

/-! ## One text -/

/-- No markup opens at an offset of a text. -/
theorem StandsIn.opensAt_in_text (hin : here.StandsIn document) (h : here.token.kind = .text)
    {n : Nat} (hn : here.token.span.Contains n) : opensAt document n = false := by
  cases hopens : opensAt document n with
  | false => rfl
  | true =>
    rcases opensAt_iff.1 hopens with ⟨a, b, hsplit, rfl, hb⟩
    rcases hin with ⟨passed, hdocument, hoffset⟩
    rw [← here.lexeme_append] at hdocument
    have hfrom : Text.byteLength passed ≤ Text.byteLength a := by
      rw [← hoffset]
      exact hn.1
    have hto : Text.byteLength a < Text.byteLength passed + Text.byteLength here.lexeme.raw := by
      rw [← hoffset]
      exact hn.2
    -- the offset splits the text, and from the split on no markup opens
    rcases Text.exists_split_within (hdocument.symm.trans hsplit) hfrom hto with
      ⟨lead, rest, hraw, hne, -, rfl⟩
    exact hb.symm.trans (opensMarkup_in_text h hraw hne)

/-- The token after a text is not text: nothing is pending there, and markup opens. -/
theorem kind_after_text (h : here.token.kind = .text) {u : Token}
    (hu : u ∈ (here.after.steps.map (·.token)).head?) : u.kind ≠ .text := by
  rcases rest_of_text h with hend | hopens
  · have hnone : here.after.next? = none := if_pos hend
    simp [steps_of_none hnone] at hu
  · have hmore : here.after.rest ≠ [] := by
      intro hend
      have hopens' : opensMarkup here.after.rest = true := hopens
      simp [hend, opensMarkup_nil] at hopens'
    rw [tokens_of_ne_nil hmore] at hu
    obtain rfl : here.after.token = u := by simpa using hu
    exact kind_ne_text hopens

end Cursor

/-! ## All tokens of a document -/

/-- Where the document goes on, the next request is answered by what is read at the cursor. -/
theorem request_cursorAfter {document : List Char} {n : Nat}
    (h : (cursorAfter document n).rest ≠ []) :
    (Scanner.atStart document).request n = some (cursorAfter document n).token := by
  calc
    (Scanner.atStart document).request n
        = ((Scanner.atStart document).afterRequests n).request 0 :=
          Scanner.request_add (.atStart document) n 0
    _ = ((cursorAfter document n).steps.map (·.token))[0]? := Scanner.request_eq _ 0
    _ = some (cursorAfter document n).token := by
      rw [Cursor.tokens_of_ne_nil h]
      rfl

/-- The texts among the tokens are the runs in which no markup opens, each as long as it can be,
where three bytes decide whether markup opens at an offset. A text has no offset at which markup
opens, ends at one or with the document, and no text comes right after it; all other tokens start
where markup opens, the contents of elements apart. Whenever the scanner stands where markup opens,
the bytes there have one of its forms, the reader of that form reads something else than text, and
the next request is answered by it or by the content of an element. -/
theorem text_runs_between_markup (document : List Char) :
    (∀ n, opensAt document n = opensMarkupBytes ((Text.bytes document).drop n))
    ∧ (∀ before t behind, scan document = before ++ t :: behind →
      (t.kind = .text →
        (∀ n, t.span.Contains n → opensAt document n = false)
          ∧ (t.span.stop = Text.byteLength document ∨ opensAt document t.span.stop = true)
          ∧ ∀ u ∈ behind.head?, u.kind ≠ .text)
      ∧ (t.kind ≠ .text → t.isContent = false → opensAt document t.span.start = true))
    ∧ ∀ n, opensAt document (cursorAfter document n).offset = true →
      ∃ op s t, form? ((Text.bytes document).drop (cursorAfter document n).offset) = some op
        ∧ (cursorAfter document n).rest = op.text ++ s
        ∧ (readMarkup (cursorAfter document n).offset op s).kind ≠ .text
        ∧ (Scanner.atStart document).request n = some t
        ∧ t.kind ≠ .text
        ∧ (t.isContent = false →
          t.kind = (readMarkup (cursorAfter document n).offset op s).kind
            ∧ t.raw = (readMarkup (cursorAfter document n).offset op s).raw) := by
  refine ⟨opensAt_eq_bytes document, ?_, ?_⟩
  · intro before t behind hsplit
    rcases exists_cursor_of_split hsplit with ⟨here, hin, -, rfl, rfl, -⟩
    refine ⟨?_, ?_⟩
    · intro htext
      exact ⟨fun n hn => hin.opensAt_in_text htext hn,
        hin.opensAt_stop_of (Cursor.rest_of_text htext),
        fun u hu => Cursor.kind_after_text htext hu⟩
    · intro htext hcontent
      exact hin.opensAt_offset.trans (Cursor.opensMarkup_of_kind htext hcontent)
  · intro n hopens
    have hin : (cursorAfter document n).StandsIn document :=
      Scanner.standsIn_afterRequests (Cursor.atStart_standsIn document) n
    have hmarkup := hin.opensAt_offset.symm.trans hopens
    have hmore : (cursorAfter document n).rest ≠ [] := by
      intro hend
      simp [hend, opensMarkup_nil] at hmarkup
    have hbytes : (Text.bytes document).drop (cursorAfter document n).offset
        = Text.bytes (cursorAfter document n).rest := by
      rcases hin with ⟨passed, hdocument, hoffset⟩
      rw [hoffset]
      conv_lhs => rw [hdocument]
      exact Text.drop_bytes passed _
    rcases Cursor.exists_form hmarkup with ⟨op, s, hform, hrest, hkind, hread⟩
    refine ⟨op, s, (cursorAfter document n).token, ?_, hrest, hkind, request_cursorAfter hmore,
      Cursor.kind_ne_text hmarkup, ?_⟩
    · rw [hbytes]
      exact hform
    · intro hcontent
      simp only [← hread hcontent]
      exact ⟨rfl, rfl⟩

/-- In `<3<b <i>a </ b` two texts hold a `<`. The first ends where `<b ` opens, which is cut off
where `<i>` opens, and the second ends with the document. The form of markup that is read at each of
the two openings is that of a start tag. -/
theorem text_runs_strayBrackets :
    let document := "<3<b <i>a </ b".toList
    (scan document).map (fun t => (t.kind == .text, String.ofList t.raw))
        = [(true, "<3"), (false, "<b "), (false, "<i>"), (true, "a </ b")]
      ∧ (∀ n < 2, opensAt document n = false) ∧ opensAt document 2 = true
      ∧ (∀ n, 8 ≤ n → n < 14 → opensAt document n = false)
      ∧ form? ((Text.bytes document).drop 2) = some .startTag
      ∧ ∃ s t, (cursorAfter document 1).rest = '<' :: s
        ∧ (Scanner.atStart document).request 1 = some t ∧ t.kind ≠ .text
        ∧ t.raw = (readMarkup 2 .startTag s).raw := by
  intro document
  have hscan : (scan document).map (fun t => (t.kind == .text, String.ofList t.raw))
      = [(true, "<3"), (false, "<b "), (false, "<i>"), (true, "a </ b")] := by decide +kernel
  have hform : form? ((Text.bytes document).drop 2) = some .startTag := by decide +kernel
  have hoffset : (cursorAfter document 1).offset = 2 := by decide +kernel
  rcases text_runs_between_markup document with ⟨-, hruns, hforms⟩
  have hfirst : ∃ behind, scan document = [] ++ ⟨.text, "<3".toList, ⟨0, 2⟩⟩ :: behind :=
    ⟨(scan document).tail, by decide +kernel⟩
  have hlast : ∃ before, scan document = before ++ [⟨.text, "a </ b".toList, ⟨8, 14⟩⟩] :=
    ⟨(scan document).dropLast, by decide +kernel⟩
  rcases hfirst with ⟨behind, hfirst⟩
  rcases hlast with ⟨before, hlast⟩
  rcases (hruns _ _ _ hfirst).1 rfl with ⟨hinside, hstop, -⟩
  rcases (hruns _ _ _ hlast).1 rfl with ⟨hinside', -, -⟩
  have hopens : opensAt document 2 = true := by
    rcases hstop with hend | hopens
    · exact absurd hend (by decide +kernel)
    · exact hopens
  rcases hforms 1 (hoffset.symm ▸ hopens) with ⟨op, s, t, hop, hrest, -, ht, hkind, hread⟩
  rw [hoffset] at hop hread
  obtain rfl : op = .startTag := Option.some.inj (hop.symm.trans hform)
  have hcontent : t.isContent = false := by
    have hplain : ((Scanner.atStart document).request 1).any (!·.isContent) = true := by
      decide +kernel
    simpa [ht] using hplain
  exact ⟨hscan, fun n hn => hinside n ⟨Nat.zero_le n, hn⟩, hopens,
    fun n hfrom hto => hinside' n ⟨hfrom, hto⟩, hform, s, t, hrest, ht, hkind, (hread hcontent).2⟩

end HtmlLint
