import HtmlLint.Proofs.Cuts
import HtmlLint.Proofs.Reading
import Mathlib.Data.List.TakeWhile

/-!
# The first token that is more than blank

A document may start with blanks, which are a text of their own or the start of a longer one. So the
first token that is more than blank text is decided by what stands behind the leading blanks: it is
the markup that opens there, or else a text.

* `scan_find?_eq_none_iff` — there is no such token exactly in blank documents.
* `firstToken_cases` — what the token is.
-/

namespace HtmlLint

/-! ## Leading blanks -/

namespace Text

theorem trimStart_append {blanks : List Char} (h : ∀ c ∈ blanks, isBlank c = true) (s : List Char) :
    trimStart (blanks ++ s) = trimStart s :=
  List.dropWhile_append_of_pos h

theorem trimStart_of_head? {s : List Char} (h : ∀ c ∈ s.head?, isBlank c = false) :
    trimStart s = s := by
  cases s with
  | nil => rfl
  | cons c s => exact List.dropWhile_cons_of_neg (by simp [h c rfl])

/-- A text is its leading blanks and what stands behind them, which does not start with a blank. -/
theorem exists_blanks (s : List Char) :
    ∃ blanks, s = blanks ++ trimStart s ∧ (∀ c ∈ blanks, isBlank c = true)
      ∧ ∀ c ∈ (trimStart s).head?, isBlank c = false := by
  refine ⟨s.takeWhile isBlank, List.takeWhile_append_dropWhile.symm,
    fun _ hc => List.mem_takeWhile_imp hc, ?_⟩
  intro c hc
  have hstop := List.head?_dropWhile_not isBlank s
  have hhead : (s.dropWhile isBlank).head? = some c := hc
  rw [hhead] at hstop
  exact hstop

end Text

theorem head?_of_opening? {s : List Char} {found : Opening × List Char} (h : opening? s = some found) :
    ∀ c ∈ s.head?, Text.isBlank c = false := by
  have hopens : opensMarkup s = true := by rw [opensMarkup, h]; rfl
  rcases exists_bracket_of_opensMarkup hopens with ⟨r, rfl⟩
  rintro c ⟨⟩
  decide

/-- Blank texts hold nothing but blanks. -/
theorem isBlank_of_mem_flatMap {tokens : List Token} (h : ∀ t ∈ tokens, t.isBlankText = true) :
    ∀ c ∈ tokens.flatMap (·.raw), Text.isBlank c = true := by
  intro c hc
  rcases List.mem_flatMap.1 hc with ⟨t, ht, hc⟩
  have hblank := h t ht
  simp only [Token.isBlankText, Bool.and_eq_true, List.all_eq_true] at hblank
  exact hblank.2 c hc

/-! ## Where the token is read -/

namespace Cursor

/-- No markup opens in a text behind its leading blanks. -/
theorem opensMarkup_of_text {here : Cursor} (hkind : here.token.kind = .text)
    (hnot : here.token.isBlankText = false) :
    Text.trimStart here.rest ≠ [] ∧ opensMarkup (Text.trimStart here.rest) = false := by
  -- `v` is the visible part of the text
  rcases Text.exists_blanks here.lexeme.raw with ⟨blanks, hraw, hblanks, hhead⟩
  generalize Text.trimStart here.lexeme.raw = v at hraw hhead
  have hv : v ≠ [] := by
    rintro rfl
    have hall : here.token.raw = blanks := hraw.trans (List.append_nil blanks)
    have hblank : here.token.isBlankText = true := by
      rw [Token.isBlankText, hkind, hall, Bool.and_eq_true, List.all_eq_true]
      exact ⟨rfl, hblanks⟩
    rw [hblank] at hnot
    cases hnot
  have hwhole := here.lexeme_append
  rw [hraw, List.append_assoc] at hwhole
  have htrim : Text.trimStart here.rest = v ++ here.lexeme.rest := by
    rw [← hwhole, Text.trimStart_append hblanks, Text.trimStart_of_head?]
    rwa [List.head?_append_of_ne_nil _ hv]
  rw [htrim]
  exact ⟨List.append_ne_nil_of_left_ne_nil hv _, opensMarkup_in_text hkind hraw hv⟩

/-- Where no content is pending, the token is a text or the markup that opens there. -/
theorem token_cases {here : Cursor} (hpending : here.pending = none) :
    here.token.kind = .text
      ∨ ∃ op s, opening? here.rest = some (op, s) ∧ here.lexeme = readMarkup here.offset op s := by
  have hlexeme : here.lexeme = readToken here.offset here.rest := by
    rw [lexeme, hpending]
  cases hopening : opening? here.rest with
  | none =>
    left
    have hkind : here.lexeme.kind = .text := by
      rw [hlexeme, readToken, hopening]
      exact readText_kind _
    exact hkind
  | some found =>
    exact .inr ⟨found.1, found.2, rfl, by rw [hlexeme, readToken, hopening]⟩

end Cursor

/-- The first token that is more than blank text is read behind blanks, where no content is
pending. -/
theorem exists_cursor_of_find? {document : List Char} {t : Token}
    (h : (scan document).find? (!·.isBlankText) = some t) :
    ∃ here : Cursor, here.pending = none ∧ t = here.token
      ∧ Text.trimStart document = Text.trimStart here.rest := by
  rcases List.find?_eq_some_iff_append.1 h with ⟨-, before, behind, htokens, hbefore⟩
  have hblank : ∀ u ∈ before, u.isBlankText = true := by simpa using hbefore
  rcases exists_cursor_of_split htokens with ⟨here, -, -, rfl, rfl, hpending⟩
  refine ⟨here, ?_, rfl, ?_⟩
  · rw [hpending]
    cases hlast : before.getLast? with
    | none => rfl
    | some u =>
      -- a text opens no element
      have hu := hblank u (List.mem_of_mem_getLast? hlast)
      simp only [Token.isBlankText, Bool.and_eq_true, beq_iff_eq] at hu
      simp [hu.1, Token.Kind.opens?]
  · have hdocument : before.flatMap (·.raw) ++ here.rest = document := by
      calc
        before.flatMap (·.raw) ++ here.rest
            = before.flatMap (·.raw) ++ (here.token.raw ++ here.after.rest) := by
              rw [← here.lexeme_append]
              rfl
        _ = (scan document).flatMap (·.raw) := by
              rw [htokens, List.flatMap_append, List.flatMap_cons, Cursor.flatMap_raw_steps]
        _ = document := Cursor.flatMap_raw_steps (.atStart document)
    rw [← hdocument, Text.trimStart_append (isBlank_of_mem_flatMap hblank)]

/-- The first token that is more than blank text is the markup that opens behind the leading blanks,
or a text if none opens there. -/
theorem firstToken_cases {document : List Char} {t : Token}
    (h : (scan document).find? (!·.isBlankText) = some t) :
    Text.trimStart document ≠ []
      ∧ (t.kind = .text ∧ opensMarkup (Text.trimStart document) = false
        ∨ ∃ op s, opening? (Text.trimStart document) = some (op, s)
          ∧ t.kind = (readMarkup t.span.start op s).kind
          ∧ t.raw = (readMarkup t.span.start op s).raw) := by
  have hnot : t.isBlankText = false := by simpa using List.find?_some h
  rcases exists_cursor_of_find? h with ⟨here, hpending, rfl, htrim⟩
  rw [htrim]
  rcases here.token_cases hpending with hkind | ⟨op, s, hopening, hread⟩
  · rcases Cursor.opensMarkup_of_text hkind hnot with ⟨hmore, hplain⟩
    exact ⟨hmore, .inl ⟨hkind, hplain⟩⟩
  · rw [Text.trimStart_of_head? (head?_of_opening? hopening)]
    refine ⟨?_, .inr ⟨op, s, hopening, congrArg Lexeme.kind hread, congrArg Lexeme.raw hread⟩⟩
    intro hnil
    rw [hnil] at hopening
    cases hopening

/-- Only a blank document has no other token than blank text. -/
theorem scan_find?_eq_none_iff {document : List Char} :
    (scan document).find? (!·.isBlankText) = none ↔ Text.trimStart document = [] := by
  constructor
  · intro hnone
    have hblank : ∀ t ∈ scan document, t.isBlankText = true := by simpa using hnone
    have hdocument : (scan document).flatMap (·.raw) = document :=
      Cursor.flatMap_raw_steps (.atStart document)
    have hall := isBlank_of_mem_flatMap hblank
    rw [hdocument] at hall
    exact List.dropWhile_eq_nil_iff.2 hall
  · intro hnil
    cases hfind : (scan document).find? (!·.isBlankText) with
    | none => rfl
    | some t => exact absurd hnil (firstToken_cases hfind).1

end HtmlLint
