import HtmlLint.Proofs.Tiling

/-!
# Where a token comes from

Every token of a document was read by one of the readers, at a cursor that stands in the document.
The lemmas here go back from a token to that cursor, and from the kind of a token to its reader. A
fact about one kind of token is then a fact about one reader.
-/

namespace HtmlLint

namespace Cursor

/-- The token that is read at a cursor. -/
def token (here : Cursor) : Token :=
  (here.place here.lexeme).token

theorem next?_of_ne_nil {here : Cursor} (h : here.rest ≠ []) :
    here.next? = some (here.place here.lexeme) :=
  if_neg h

/-- The place after the token that is read at a cursor. -/
def after (here : Cursor) : Cursor :=
  (here.place here.lexeme).next

/-- Unless the document ends, the tokens from a cursor on are the one read there and those after it. -/
theorem tokens_of_ne_nil {here : Cursor} (h : here.rest ≠ []) :
    here.steps.map (·.token) = here.token :: here.after.steps.map (·.token) := by
  rw [steps_of_some (next?_of_ne_nil h), List.map_cons]
  rfl

theorem StandsIn.rest_after {source : List Char} {here : Cursor} (h : here.StandsIn source) :
    here.after.rest = Text.dropBytes here.token.span.stop source := by
  rcases h with ⟨passed, hsource, hoffset⟩
  have hstop : here.token.span.stop = Text.byteLength (passed ++ here.lexeme.raw) := by
    rw [Text.byteLength_append, ← hoffset]
    rfl
  rw [hstop, hsource, ← here.lexeme_append, ← List.append_assoc, Text.dropBytes_byteLength_append]
  rfl

/-- A token was read at a cursor, at which content is pending if the token before it says so, and the
tokens behind it are read on from there. -/
theorem exists_of_split {source : List Char} {here : Cursor} (hin : here.StandsIn source)
    {before behind : List Token} {t : Token}
    (h : here.steps.map (·.token) = before ++ t :: behind) :
    ∃ there : Cursor, there.StandsIn source ∧ there.rest ≠ [] ∧ t = there.token
      ∧ behind = there.after.steps.map (·.token)
      ∧ there.pending = (before.getLast?.map (·.kind.opens?)).getD here.pending := by
  induction here using Cursor.induction generalizing before with
  | finished here hnone =>
    rw [steps_of_none hnone] at h
    simp at h
  | step here step hsome ih =>
    have hmore : here.rest ≠ [] := by
      intro hend
      simp [next?, hend] at hsome
    obtain rfl : here.place here.lexeme = step := by
      rw [next?_of_ne_nil hmore] at hsome
      exact Option.some.inj hsome
    rw [steps_of_some hsome, List.map_cons] at h
    cases before with
    | nil =>
      rcases List.cons.inj h with ⟨rfl, rfl⟩
      exact ⟨here, hin, hmore, rfl, rfl, rfl⟩
    | cons u before =>
      rcases List.cons.inj h with ⟨rfl, hlater⟩
      rcases ih (hin.next hsome) hlater with ⟨there, hthere, hleft, ht, hbehind, hpending⟩
      refine ⟨there, hthere, hleft, ht, hbehind, ?_⟩
      -- the first of the tokens before is the one read here
      rw [hpending, List.getLast?_cons]
      cases before.getLast? <;> rfl

end Cursor

theorem exists_cursor_of_split {source : List Char} {before behind : List Token} {t : Token}
    (h : scan source = before ++ t :: behind) :
    ∃ here : Cursor, here.StandsIn source ∧ here.rest ≠ [] ∧ t = here.token
      ∧ behind = here.after.steps.map (·.token)
      ∧ here.pending = (before.getLast?.map (·.kind.opens?)).getD none :=
  Cursor.exists_of_split (Cursor.atStart_standsIn source) h

/-- A token of a document was read at a cursor in the document. -/
theorem exists_cursor_of_mem_scan {source : List Char} {t : Token} :
    t ∈ scan source →
      ∃ here : Cursor, here.StandsIn source ∧ here.rest ≠ [] ∧ t = here.token := by
  intro ht
  rcases List.append_of_mem ht with ⟨before, behind, hsplit⟩
  rcases exists_cursor_of_split hsplit with ⟨here, hin, hmore, rfl, -⟩
  exact ⟨here, hin, hmore, rfl⟩

/-! ## From kinds to readers -/

/-- What is read at a cursor is a token like any other, or the content that is pending there. -/
theorem Cursor.lexeme_eq_or (here : Cursor) :
    here.lexeme = readToken here.offset here.rest
      ∨ ∃ element, here.pending = some element
        ∧ here.lexeme = readRawText here.offset element here.rest := by
  unfold Cursor.lexeme
  split
  · exact .inl rfl
  · next element hpending =>
    dsimp only
    split
    · exact .inl rfl
    · exact .inr ⟨element, hpending, rfl⟩

/-- What is read at a cursor is the content of an element, markup, or text. -/
theorem Cursor.lexeme_cases (here : Cursor) :
    (∃ element, here.lexeme = readRawText here.offset element here.rest)
      ∨ (∃ op s, opening? here.rest = some (op, s)
        ∧ here.lexeme = readMarkup here.offset op s)
      ∨ (opening? here.rest = none ∧ here.lexeme = readText here.rest) := by
  rcases here.lexeme_eq_or with htoken | ⟨element, -, hcontent⟩
  · right
    cases hopening : opening? here.rest with
    | none => exact .inr ⟨rfl, by rw [htoken, readToken, hopening]⟩
    | some found => exact .inl ⟨found.1, found.2, rfl, by rw [htoken, readToken, hopening]⟩
  · exact .inl ⟨element, hcontent⟩

theorem readEndTag_kind (o : Nat) (s : List Char) :
    (readEndTag o s).kind = .endTag (s.takeWhile (!endsTagName ·)) := by
  unfold readEndTag
  dsimp only
  split <;> rfl

theorem readText_kind (s : List Char) : (readText s).kind = .text := by
  cases s <;> rfl

/-- Markup of the kind of a tag or a declaration was opened as such, and no markup is text or the
content of an element. -/
theorem readMarkup_kind (o : Nat) (op : Opening) (s : List Char) :
    match (readMarkup o op s).kind with
    | .startTag .. => op = .startTag
    | .endTag _ => op = .endTag
    | .text => False
    | .declaration _ => op = .declaration
    | .cdata _ element => element = none
    | _ => True := by
  cases op with
  | startTag => rfl
  | endTag =>
    rw [readMarkup, readEndTag_kind]
  | comment =>
    have hkind : (readMarkup o .comment s).kind = .conditional (readComment s).data
        ∨ (readMarkup o .comment s).kind = .comment (readComment s).data := by
      simp only [readMarkup, Enclosed.lexeme, commentKind]
      split
      · exact .inl rfl
      · exact .inr rfl
    rcases hkind with hkind | hkind <;> rw [hkind] <;> trivial
  | cdata => rfl
  | declaration => rfl
  | _ => trivial

namespace Cursor

variable {here : Cursor} {name : List Char}

theorem lexeme_of_startTag {attributes : List Attribute} {selfClosing : Bool} :
    here.lexeme.kind = .startTag name attributes selfClosing →
      ∃ s, opening? here.rest = some (.startTag, s)
        ∧ here.lexeme = readStartTag here.offset s := by
  intro h
  rcases here.lexeme_cases with ⟨element, hread⟩ | ⟨op, s, hopening, hread⟩ | ⟨-, hread⟩
  · rw [hread] at h
    cases h
  · have hkind := readMarkup_kind here.offset op s
    rw [← hread, h] at hkind
    obtain rfl : op = .startTag := hkind
    exact ⟨s, hopening, hread⟩
  · rw [hread, readText_kind] at h
    cases h

theorem lexeme_of_endTag :
    here.lexeme.kind = .endTag name →
      ∃ s, here.rest = '<' :: '/' :: s ∧ here.lexeme = readEndTag here.offset s := by
  intro h
  rcases here.lexeme_cases with ⟨element, hread⟩ | ⟨op, s, hopening, hread⟩ | ⟨-, hread⟩
  · rw [hread] at h
    cases h
  · have hkind := readMarkup_kind here.offset op s
    rw [← hread, h] at hkind
    obtain rfl : op = .endTag := hkind
    exact ⟨s, opening?_append hopening, hread⟩
  · rw [hread, readText_kind] at h
    cases h

theorem lexeme_of_text :
    here.lexeme.kind = .text →
      here.lexeme = readText here.rest ∧ opensMarkup here.rest = false := by
  intro h
  rcases here.lexeme_cases with ⟨element, hread⟩ | ⟨op, s, -, hread⟩ | ⟨hopening, hread⟩
  · rw [hread] at h
    cases h
  · have hkind := readMarkup_kind here.offset op s
    rw [← hread, h] at hkind
    exact hkind.elim
  · exact ⟨hread, by simp [opensMarkup, hopening]⟩

/-- Where markup opens, no text is read. -/
theorem kind_ne_text (h : opensMarkup here.rest = true) : here.token.kind ≠ .text := by
  intro hkind
  have hplain := (lexeme_of_text hkind).2
  rw [h] at hplain
  cases hplain

/-- No markup opens in a text, what follows it being taken into account. -/
theorem opensMarkup_in_text (h : here.token.kind = .text) {a b : List Char}
    (hraw : here.lexeme.raw = a ++ b) (hb : b ≠ []) :
    opensMarkup (b ++ here.lexeme.rest) = false := by
  rcases lexeme_of_text h with ⟨hread, hplain⟩
  cases a with
  | nil =>
    -- the start of the text is where it was decided to read a text
    have hwhole : b ++ here.lexeme.rest = here.rest := by
      simpa [hraw] using here.lexeme_append
    simpa only [hwhole] using hplain
  | cons c a =>
    -- from its first character the text was read on to the next markup
    cases hrest : here.rest with
    | nil =>
      rw [hread, hrest] at hraw
      cases hraw
    | cons d s =>
      rw [hread, hrest] at hraw ⊢
      exact Text.breakAt_fst (List.cons.inj hraw).2 hb

/-- After a text markup opens or the document ends. -/
theorem rest_of_text (h : here.token.kind = .text) :
    here.lexeme.rest = [] ∨ opensMarkup here.lexeme.rest = true := by
  rw [(lexeme_of_text h).1]
  cases here.rest with
  | nil => exact .inl rfl
  | cons c s => exact Text.breakAt_snd opensMarkup s

/-- The content of an element is read only where it is pending. -/
theorem pending_of_content {data : List Char} {element : RawElement} :
    here.lexeme.kind = .cdata data (some element) → here.pending = some element := by
  intro h
  rcases here.lexeme_eq_or with htoken | ⟨other, hpending, hread⟩
  · rw [htoken, readToken] at h
    split at h
    · next op s _ =>
      have hkind := readMarkup_kind here.offset op s
      rw [h] at hkind
      cases hkind
    · rw [readText_kind] at h
      cases h
  · rw [hread] at h
    cases h
    exact hpending

end Cursor

end HtmlLint
