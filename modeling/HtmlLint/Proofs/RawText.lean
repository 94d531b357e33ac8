import HtmlLint.Proofs.Reading
import HtmlLint.Proofs.Recoding.Text

/-!
# The content of raw elements

The content of a script or a style element is one token, however much it looks like markup. It starts
right behind the start tag and runs up to the first end tag of its element, or to the end of the
document.

* `RawElement.ClosedBy` — an end tag of the element, as it stands in a text.
* `Token.OpensRaw`, `Token.ClosesRaw` — the start and end tags of a raw element.
* `rawText_extent` — the tokens behind such a start tag, and that content stands nowhere else.
-/

namespace HtmlLint

/-! ## End tags in text -/

namespace RawElement

/-- The text starts with an end tag of the element: with `</`, the name in any case, and a character
that ends a name unless the text ends there. -/
def ClosedBy (element : RawElement) (s : List Char) : Prop :=
  ∃ name rest, s = '<' :: '/' :: (name ++ rest) ∧ Text.lower name = element.name
    ∧ ∀ c ∈ rest.head?, endsTagName c = true

theorem lower_name (element : RawElement) : Text.lower element.name = element.name := by
  cases element <;> decide

theorem sameIgnoringCase_name_iff {element : RawElement} {name : List Char} :
    Text.sameIgnoringCase name element.name = true ↔ Text.lower name = element.name := by
  rw [Text.sameIgnoringCase, lower_name, beq_iff_eq]

/-- The name of a raw element has only letters, in any case. -/
theorem isAlpha_of_lower_eq {element : RawElement} {name : List Char}
    (h : Text.lower name = element.name) : ∀ c ∈ name, c.isAlpha = true := by
  apply isAlpha_of_lower
  rw [h]
  cases element <;> decide

theorem ofName?_eq_some_iff {element : RawElement} {name : List Char} :
    ofName? name = some element ↔ Text.lower name = element.name := by
  have hdistinct : script.name ≠ style.name := by decide
  simp only [ofName?, sameIgnoringCase_name_iff]
  constructor
  · intro h
    split at h
    · next hscript =>
      cases h
      exact hscript
    · split at h
      · next hstyle =>
        cases h
        exact hstyle
      · cases h
  · intro h
    cases element with
    | script => rw [if_pos h]
    | style => rw [if_neg (by rw [h]; exact hdistinct.symm), if_pos h]

end RawElement

theorem closesElement_iff {element : RawElement} {s : List Char} :
    closesElement element s = true ↔ element.ClosedBy s := by
  have hends : ∀ rest : List Char,
      rest.head?.all endsTagName = true ↔ ∀ c ∈ rest.head?, endsTagName c = true := by
    intro rest
    cases rest.head? <;> simp
  have hname : ∀ u : List Char, closesElement element ('<' :: '/' :: u) = true
      ↔ ∃ name rest, u = name ++ rest ∧ Text.lower name = element.name
        ∧ ∀ c ∈ rest.head?, endsTagName c = true := by
    intro u
    have hafter : Text.after? Opening.endTag.text ('<' :: '/' :: u) = some u :=
      Text.after?_append ..
    rw [closesElement, hafter, Bool.and_eq_true, hends, Text.exists_word_iff
      (p := fun rest => ∀ c ∈ rest.head?, endsTagName c = true), element.lower_name]
  constructor
  · intro h
    cases hafter : Text.after? Opening.endTag.text s with
    | none =>
      rw [closesElement, hafter] at h
      cases h
    | some u =>
      have hs : s = '<' :: '/' :: u := Text.after?_eq_some_iff.1 hafter
      rw [hs, hname] at h
      rcases h with ⟨name, rest, rfl, hsame, hrest⟩
      exact ⟨name, rest, hs, hsame, hrest⟩
  · rintro ⟨name, rest, rfl, hsame, hrest⟩
    exact (hname _).2 ⟨name, rest, rfl, hsame, hrest⟩

/-- An end tag of a raw element is read as such. -/
theorem readToken_of_closedBy (o : Nat) {element : RawElement} {s : List Char}
    (h : element.ClosedBy s) :
    ∃ name, (readToken o s).kind = .endTag name ∧ Text.lower name = element.name := by
  rcases h with ⟨name, rest, rfl, hname, hrest⟩
  have hletters := RawElement.isAlpha_of_lower_eq hname
  have hletter : startsWithLetter (name ++ rest) = true := by
    cases name with
    | nil => cases element <;> cases hname
    | cons c name => exact hletters c List.mem_cons_self
  have hopening : opening? ('<' :: '/' :: (name ++ rest)) = some (.endTag, name ++ rest) := by
    simp [opening?, hletter]
  have htake : (name ++ rest).takeWhile (!endsTagName ·) = name := by
    apply Text.takeWhile_eq
    · intro c hc
      simp [endsTagName_of_isAlpha (hletters c hc)]
    · intro c hc
      simp [hrest c hc]
  refine ⟨name, ?_, hname⟩
  rw [readToken, hopening]
  dsimp only [readMarkup]
  rw [readEndTag_kind, htake]

/-! ## Content -/

namespace Token

/-- The token is a start tag of the element, which does not close itself. -/
def OpensRaw (t : Token) (element : RawElement) : Prop :=
  ∃ name attributes, t.kind = .startTag name attributes false ∧ Text.lower name = element.name

/-- The token is an end tag of the element. -/
def ClosesRaw (t : Token) (element : RawElement) : Prop :=
  ∃ name, t.kind = .endTag name ∧ Text.lower name = element.name

/-- Content is pending behind the start tags of raw elements and behind nothing else. -/
theorem opens?_eq_some_iff {t : Token} {element : RawElement} :
    t.kind.opens? = some element ↔ t.OpensRaw element := by
  constructor
  · intro h
    unfold Kind.opens? at h
    split at h
    · next name attributes hkind =>
      exact ⟨name, attributes, hkind, RawElement.ofName?_eq_some_iff.1 h⟩
    · cases h
  · rintro ⟨name, attributes, hkind, hname⟩
    rw [hkind]
    exact RawElement.ofName?_eq_some_iff.2 hname

end Token

/-- The token of the content `data` of an element, which starts at offset `o`. -/
def RawElement.content (element : RawElement) (o : Nat) (data : List Char) : Token :=
  ⟨.cdata data (some element), data, .ofText o data⟩

namespace Cursor

variable {here : Cursor} {element : RawElement}

/-- Content that is not empty is read up to the cut, and nothing is pending behind it. -/
theorem tokens_of_content (hpending : here.pending = some element) {data rest : List Char}
    (hcut : Text.breakAt (closesElement element) here.rest = (data, rest)) (hdata : data ≠ []) :
    here.steps.map (·.token) = element.content here.offset data
      :: (Cursor.mk (here.offset + Text.byteLength data) rest none).steps.map (·.token) := by
  have hlexeme : here.lexeme = readRawText here.offset element here.rest := by
    rw [lexeme, hpending]
    exact if_neg (by rw [readRawText, hcut]; exact hdata)
  have hmore : here.rest ≠ [] := by
    intro hnil
    rw [hnil] at hcut
    cases hcut
    exact hdata rfl
  rw [tokens_of_ne_nil hmore, token, after, hlexeme, readRawText, hcut]
  rfl

/-- Where an end tag of an element is read as a token, it is the next one. -/
theorem tokens_of_closedBy (here : Cursor) (hlexeme : here.lexeme = readToken here.offset here.rest)
    (hcloses : element.ClosedBy here.rest) :
    here.token.ClosesRaw element
      ∧ here.steps.map (·.token) = here.token :: here.after.steps.map (·.token) := by
  refine ⟨?_, tokens_of_ne_nil ?_⟩
  · rcases readToken_of_closedBy here.offset hcloses with ⟨name, hkind, hname⟩
    rw [← hlexeme] at hkind
    exact ⟨name, hkind, hname⟩
  · rcases hcloses with ⟨name, rest, hrest, -⟩
    rw [hrest]
    exact List.cons_ne_nil _ _

/-- Pending content runs up to the first end tag of its element, which follows as a token. -/
theorem tokens_of_isLeast (hpending : here.pending = some element) {k : Nat}
    (hk : IsLeast {n | Text.HoldsAt element.ClosedBy here.rest n} k) :
    ∃ (close : Token) (later : List Token), close.ClosesRaw element
      ∧ close.span.start = here.offset + k
      ∧ here.steps.map (·.token)
        = (if k = 0 then [] else [element.content here.offset (Text.takeBytes k here.rest)])
          ++ close :: later := by
  have hclosed : element.ClosedBy = (closesElement element · = true) :=
    funext fun s => propext closesElement_iff.symm
  rw [hclosed] at hk
  rcases Text.breakAt_of_isLeast hk with ⟨data, rest, hcut, hrest, rfl, hcloses⟩
  rw [closesElement_iff] at hcloses
  by_cases hdata : data = []
  · -- no content, so the end tag is what is read here
    subst hdata
    have hlexeme : here.lexeme = readToken here.offset here.rest := by
      rw [lexeme, hpending]
      exact if_pos (by rw [readRawText, hcut])
    rw [List.nil_append] at hrest
    rw [← hrest] at hcloses
    rcases tokens_of_closedBy here hlexeme hcloses with ⟨hclose, htokens⟩
    exact ⟨_, _, hclose, rfl, htokens⟩
  · have hlength := (Text.byteLength_pos hdata).ne'
    rw [if_neg hlength, hrest, Text.takeBytes_byteLength_append,
      tokens_of_content hpending hcut hdata]
    -- nothing is pending behind the content
    rcases tokens_of_closedBy ⟨here.offset + Text.byteLength data, rest, none⟩ rfl hcloses with
      ⟨hclose, htokens⟩
    exact ⟨_, _, hclose, rfl, congrArg (element.content here.offset data :: ·) htokens⟩

/-- Without an end tag of its element, pending content is all that is left. -/
theorem tokens_of_unclosed (hpending : here.pending = some element) (hmore : here.rest ≠ [])
    (hnone : ∀ n, ¬ Text.HoldsAt element.ClosedBy here.rest n) :
    here.steps.map (·.token) = [element.content here.offset here.rest] := by
  have hcut : Text.breakAt (closesElement element) here.rest = (here.rest, []) := by
    apply Text.breakAt_of_forall_not
    rintro n ⟨a, b, hsplit, hlength, hb⟩
    exact hnone n ⟨a, b, hsplit, hlength, closesElement_iff.1 hb⟩
  rw [tokens_of_content hpending hcut hmore, steps_of_none (by simp [next?])]
  rfl

end Cursor

/-- Behind a start tag of a raw element stands its content, up to the first end tag of the element or
else to the end of the document. The end tag follows as the next token, and content that is empty
is no token. Content stands nowhere but behind such a start tag. -/
theorem rawText_extent {document : List Char} {before behind : List Token} {t : Token}
    (h : scan document = before ++ t :: behind) (element : RawElement) :
    (t.OpensRaw element → ∀ rest, rest = Text.dropBytes t.span.stop document → rest ≠ [] →
      (∀ k, IsLeast {n | Text.HoldsAt element.ClosedBy rest n} k →
        ∃ (close : Token) (later : List Token), close.ClosesRaw element
          ∧ close.span.start = t.span.stop + k
          ∧ behind = (if k = 0 then [] else [element.content t.span.stop (Text.takeBytes k rest)])
            ++ close :: later)
      ∧ ((∀ n, ¬ Text.HoldsAt element.ClosedBy rest n) →
        behind = [element.content t.span.stop rest]))
    ∧ ∀ data, t.kind = .cdata data (some element) →
        ∃ earlier opener, before = earlier ++ [opener] ∧ opener.OpensRaw element := by
  rcases exists_cursor_of_split h with ⟨here, hin, -, rfl, rfl, hpending⟩
  constructor
  · intro hopens rest hrest hmore
    have hafter : here.after.pending = some element := Token.opens?_eq_some_iff.2 hopens
    rw [← hin.rest_after] at hrest
    subst hrest
    exact ⟨fun k hk => Cursor.tokens_of_isLeast hafter hk,
      Cursor.tokens_of_unclosed hafter hmore⟩
  · intro data hkind
    rw [Cursor.pending_of_content hkind] at hpending
    -- so there is a token before, and it opened the element
    rcases List.eq_nil_or_concat before with rfl | ⟨earlier, opener, rfl⟩
    · cases hpending
    · refine ⟨earlier, opener, by simp, Token.opens?_eq_some_iff.1 ?_⟩
      simpa using hpending.symm

/-- The start tag of `<Script>é</scripty></SCRIPT >b`. -/
def scriptTag : Token :=
  ⟨.startTag "Script".toList [] false, "<Script>".toList, ⟨0, 8⟩⟩

/-- In `<Script>é</scripty></SCRIPT >b` the content of the script has a `</scripty>` of its own. -/
theorem scriptTag_content :
    ∃ behind, scan "<Script>é</scripty></SCRIPT >b".toList = [] ++ scriptTag :: behind
      ∧ scriptTag.OpensRaw .script
      ∧ IsLeast {n | Text.HoldsAt RawElement.script.ClosedBy
          "é</scripty></SCRIPT >b".toList n} 12
      ∧ ∃ (close : Token) (later : List Token), close.ClosesRaw .script
        ∧ close.span.start = 8 + 12
        ∧ behind = [RawElement.script.content 8 "é</scripty>".toList] ++ close :: later := by
  have hscan : scan "<Script>é</scripty></SCRIPT >b".toList
      = [] ++ scriptTag :: (scan "<Script>é</scripty></SCRIPT >b".toList).tail := by
    decide +kernel
  have hopens : scriptTag.OpensRaw .script := ⟨_, _, rfl, by decide⟩
  have hrest : "é</scripty></SCRIPT >b".toList
      = Text.dropBytes 8 "<Script>é</scripty></SCRIPT >b".toList := by decide +kernel
  have hleast : IsLeast {n | Text.HoldsAt RawElement.script.ClosedBy
      "é</scripty></SCRIPT >b".toList n} 12 := by
    constructor
    · refine ⟨"é</scripty>".toList, "</SCRIPT >b".toList, by decide +kernel, by decide +kernel,
        "SCRIPT".toList, " >b".toList, by decide, by decide, ?_⟩
      rintro c ⟨⟩
      rfl
    · rintro n ⟨a, b, hsplit, hlength, hb⟩
      have hcut := Text.isLeast_breakAt (closesElement .script) "é</scripty></SCRIPT >b".toList
      have hfirst : Text.byteLength (Text.breakAt (closesElement .script)
          "é</scripty></SCRIPT >b".toList).1 = 12 := by decide +kernel
      rw [hfirst] at hcut
      exact hcut.2 (.inr ⟨a, b, hsplit, hlength, closesElement_iff.2 hb⟩)
  rcases ((rawText_extent hscan .script).1 hopens _ hrest (by decide)).1 12 hleast with
    ⟨close, later, hclose, hstart, hbehind⟩
  have htake : Text.takeBytes 12 "é</scripty></SCRIPT >b".toList = "é</scripty>".toList := by
    decide +kernel
  rw [htake] at hbehind
  exact ⟨_, hscan, hopens, hleast, close, later, hclose, hstart, hbehind⟩

end HtmlLint
