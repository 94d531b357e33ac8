import HtmlLint.Proofs.FirstToken
import HtmlLint.RuleSet.Reading

/-!
# The comment at the top of a document

A document may bring its own rule set in a comment at its top. The reader of rule sets looks for that
comment in the text: it passes the blanks, then searches for the closing text. The scanner has its
own idea of a comment, with endings at once (`<!-->`, `<!--->`) and without an end. Both agree:
`ofDocument_eq_ofTokens` gives the rule set from the first token that is not blank text.

Where a comment ends at once the two cut out different data. What the reader of rule sets has then
starts with `>` or `-`, so it does not start with the keyword, and neither finds a rule set.
-/

namespace HtmlLint

/-- The data of a token, between its delimiters. Tags and text have none. -/
def Token.Kind.data : Token.Kind → List Char
  | comment data | conditional data | declaration data | cdata data _ => data
  | _ => []

namespace RuleSet

/-! ## Rule sets from tokens -/

/-- The rule set in the trimmed data of a comment: a list after the keyword, on one line. -/
def ofInline (body : List Char) : Except Fault (Option RuleSet) :=
  if '\r' ∈ body ∨ '\n' ∈ body then .ok none
  else if body.any Text.isBlank = false then .ok none
  else if Text.lower (body.takeWhile (!Text.isBlank ·)) ≠ keyword then .ok none
  else (ofList (body.dropWhile (!Text.isBlank ·)).tail).map some

/-- The rule set in the first token that is not blank text, if it is a comment with its closing
text. -/
def ofTokens (tokens : List Token) : Except Fault (Option RuleSet) :=
  match tokens.find? (!·.isBlankText) with
  | some t =>
    if ['<', '!', '-', '-'] <+: t.raw ∧ ['-', '-', '>'] <:+ t.raw then
      ofInline (Text.trim t.kind.data)
    else .ok none
  | none => .ok none

/-! ## The data of a comment -/

theorem lower_keyword : Text.lower keyword = keyword := by decide

/-- Reading the list out of the data is reading the trimmed data. -/
theorem ofInline_trim (data : List Char) :
    ofInline (Text.trim data)
      = match inlineList? data with
        | some list => (ofList list).map some
        | none => .ok none := by
  unfold ofInline inlineList?
  generalize Text.trim data = body
  have hlines : body.any (fun c => c == '\r' || c == '\n') = true ↔ '\r' ∈ body ∨ '\n' ∈ body := by
    simp [List.any_eq_true, and_or_left, exists_or]
  by_cases hline : '\r' ∈ body ∨ '\n' ∈ body
  · simp [hline, hlines.2 hline]
  · simp only [hline, if_false, mt hlines.1 hline]
    cases hdrop : body.dropWhile (!Text.isBlank ·) with
    | nil =>
      -- there is no blank
      have hnone : body.any Text.isBlank = false := by
        simpa using List.dropWhile_eq_nil_iff.1 hdrop
      rw [if_pos hnone]
      simp [Text.cutAt?, hdrop]
    | cons c list =>
      have hsome : body.any Text.isBlank ≠ false := by
        intro hnone
        have hnil : body.dropWhile (!Text.isBlank ·) = [] := by
          rw [List.dropWhile_eq_nil_iff]
          simpa using hnone
        simp [hnil] at hdrop
      rw [if_neg hsome]
      by_cases hword : Text.lower (body.takeWhile (!Text.isBlank ·)) = keyword
      · simp [hword, Text.cutAt?, hdrop, Text.sameIgnoringCase, lower_keyword]
      · simp [hword, Text.cutAt?, hdrop, Text.sameIgnoringCase, lower_keyword]

end RuleSet

/-- Trimming leaves a first character that is not blank where it is. -/
theorem Text.trim_cons {c : Char} (h : isBlank c = false) (s : List Char) :
    ∃ t, trim (c :: s) = c :: t := by
  have hstart : trimStart (c :: s) = c :: s := by simp [trimStart, h]
  rw [trim, hstart, trimEnd, List.reverse_cons, List.dropWhile_append]
  split
  · exact ⟨[], by simp [h]⟩
  · exact ⟨(s.reverse.dropWhile isBlank).reverse, by simp⟩

namespace RuleSet

/-- Data that starts with another character than the keyword holds no list. -/
theorem inlineList?_cons_eq_none {c : Char} (hblank : Text.isBlank c = false)
    (hkey : c.toLower ≠ 'l') (data : List Char) : inlineList? (c :: data) = none := by
  rcases Text.trim_cons hblank data with ⟨t, htrim⟩
  have hword : (c :: t).takeWhile (!Text.isBlank ·) = c :: t.takeWhile (!Text.isBlank ·) := by
    simp [hblank]
  have hother : ∀ word, Text.sameIgnoringCase (c :: word) keyword = false := by
    intro word
    simp [Text.sameIgnoringCase, Text.lower, keyword, hkey]
  unfold inlineList? Text.cutAt?
  simp only [htrim, hword]
  split
  · rfl
  · split
    · next word list hcut =>
      split at hcut
      · cases hcut
      · cases hcut
        simp [hother]
    · rfl

end RuleSet

/-! ## The first token -/

theorem commentKind_data (data : List Char) : (commentKind data).data = data := by
  unfold commentKind
  split <;> rfl

/-- After its leading blanks, a document that starts with a comment has that comment as its first
token that is not blank text. -/
theorem find?_scan_comment {blanks s : List Char} (hblanks : ∀ c ∈ blanks, Text.isBlank c = true) :
    ∃ t : Token, (scan (blanks ++ (['<', '!', '-', '-'] ++ s))).find? (!·.isBlankText) = some t
      ∧ t.kind = commentKind (readComment s).data
      ∧ t.raw = ['<', '!', '-', '-'] ++ ((readComment s).data ++ (readComment s).close) := by
  have hopening : opening? (['<', '!', '-', '-'] ++ s) = some (.comment, s) := by
    simp [opening?, Opening.afterBang, Text.after?]
  have htrim : Text.trimStart (blanks ++ (['<', '!', '-', '-'] ++ s)) = ['<', '!', '-', '-'] ++ s := by
    rw [Text.trimStart_append hblanks, Text.trimStart_of_head? (head?_of_opening? hopening)]
  cases hfind : (scan (blanks ++ (['<', '!', '-', '-'] ++ s))).find? (!·.isBlankText) with
  | none =>
    rw [scan_find?_eq_none_iff, htrim] at hfind
    cases hfind
  | some t =>
    rcases firstToken_cases hfind with ⟨-, ⟨-, hplain⟩ | ⟨op, u, hfound, hkind, hraw⟩⟩
    · rw [htrim, opensMarkup, hopening] at hplain
      cases hplain
    · rw [htrim, hopening] at hfound
      cases hfound
      exact ⟨t, rfl, hkind, hraw⟩

/-- The text of the first token that is not blank text comes after the leading blanks. -/
theorem exists_trimStart_of_find? {document : List Char} {t : Token}
    (h : (scan document).find? (!·.isBlankText) = some t) {c : Char} {s : List Char}
    (hraw : t.raw = c :: s) (hc : Text.isBlank c = false) :
    ∃ rest, Text.trimStart document = t.raw ++ rest := by
  rcases exists_cursor_of_find? h with ⟨here, -, rfl, htrim⟩
  have hrest : here.rest = c :: (s ++ here.lexeme.rest) := by
    rw [← List.cons_append, ← hraw]
    exact here.lexeme_append.symm
  have hhead : ∀ d ∈ here.rest.head?, Text.isBlank d = false := by
    rw [hrest]
    rintro d ⟨⟩
    exact hc
  rw [htrim, Text.trimStart_of_head? hhead]
  exact ⟨here.lexeme.rest, here.lexeme_append.symm⟩

/-! ## Agreement -/

/-- Without a closing text in it, a comment that does not end at once does not end like one. -/
theorem not_suffix_of_unclosed {s : List Char}
    (hopen : (Text.breakAt (Text.startsWith ['-', '-', '>']) s).2 = [])
    (hclose : ¬ ['>'] <+: s) (hdash : ¬ ['-', '>'] <+: s) :
    ¬ ['-', '-', '>'] <:+ ['<', '!', '-', '-'] ++ s := by
  intro hsuffix
  rcases List.suffix_or_suffix_of_suffix hsuffix (List.suffix_append _ s) with hin | hout
  · -- the closing text lies in `s`, where the search would have found it
    rcases hin with ⟨a, rfl⟩
    have hwhole := Text.breakAt_append (Text.startsWith ['-', '-', '>']) (a ++ ['-', '-', '>'])
    rw [hopen, List.append_nil] at hwhole
    have hnone := Text.breakAt_fst hwhole (by simp)
    simp [hopen, Text.startsWith, Text.after?] at hnone
  · -- `s` is a part of the closing text, too short to reach back into the opening text
    have hmem := (List.mem_tails s _).2 hout
    simp only [List.tails, List.mem_cons, List.not_mem_nil, or_false] at hmem
    rcases hmem with rfl | rfl | rfl | rfl
    · simp [Text.breakAt_cons, Text.startsWith, Text.after?] at hopen
    · exact hdash List.prefix_rfl
    · exact hclose List.prefix_rfl
    · revert hsuffix
      decide

namespace RuleSet

/-- The rule set in a comment, of which `s` is what follows its opening text. -/
theorem ofDocument_comment {document s : List Char}
    (h : Text.trimStart document = ['<', '!', '-', '-'] ++ s) :
    ofDocument document =
      if ['-', '-', '>'] <:+ ['<', '!', '-', '-'] ++ ((readComment s).data ++ (readComment s).close)
      then ofInline (Text.trim (readComment s).data) else .ok none := by
  have hopening : openingComment? document
      = if (Text.breakAt (Text.startsWith ['-', '-', '>']) s).2.isEmpty then none
        else some (Text.breakAt (Text.startsWith ['-', '-', '>']) s).1 := by
    simp [openingComment?, h, Text.after?]
  have hempty : ofInline (Text.trim []) = .ok none := by
    simp [ofInline, Text.trim, Text.trimEnd, Text.trimStart]
  -- a comment that ends at once: the search goes on behind its end, in vain
  have habrupt : ∀ (c : Char) (t : List Char), s = c :: t → Text.isBlank c = false →
      c.toLower ≠ 'l' → Text.startsWith ['-', '-', '>'] s = false →
      ofDocument document = .ok none := by
    intro c t hs hblank hkey hstarts
    subst hs
    have hnone := inlineList?_cons_eq_none hblank hkey
    simp only [ofDocument, hopening, Text.breakAt_cons, hstarts, Bool.false_eq_true, if_false]
    split
    · next list hlist =>
      split at hlist
      · cases hlist
      · simp [hnone] at hlist
    · rfl
  unfold readComment
  split
  · rw [habrupt _ _ rfl (by decide) (by decide) (by simp [Text.startsWith, Text.after?]), hempty]
    simp
  · rw [habrupt _ _ rfl (by decide) (by decide) (by simp [Text.startsWith, Text.after?]), hempty]
    simp
  · next hclose hdash =>
    cases hafter : Text.after? ['-', '-', '>']
        (Text.breakAt (Text.startsWith ['-', '-', '>']) s).2 with
    | some rest =>
      have hread : readEnclosed ['-', '-', '>'] s
          = ⟨(Text.breakAt (Text.startsWith ['-', '-', '>']) s).1, ['-', '-', '>'], rest⟩ := by
        simp [readEnclosed, hafter]
      -- both find the same closing text
      have hrest := Text.after?_eq_some_iff.1 hafter
      have hsuffix : ['-', '-', '>'] <:+ ['<', '!', '-', '-']
          ++ ((Text.breakAt (Text.startsWith ['-', '-', '>']) s).1 ++ ['-', '-', '>']) := by
        rw [← List.append_assoc]
        exact List.suffix_append _ _
      rw [hread, if_pos hsuffix, ofInline_trim, ofDocument, hopening, hrest]
      rfl
    | none =>
      have hread : readEnclosed ['-', '-', '>'] s
          = ⟨(Text.breakAt (Text.startsWith ['-', '-', '>']) s).1, [],
              (Text.breakAt (Text.startsWith ['-', '-', '>']) s).2⟩ := by
        simp [readEnclosed, hafter]
      have hnil : (Text.breakAt (Text.startsWith ['-', '-', '>']) s).2 = [] := by
        rcases Text.breakAt_snd (Text.startsWith ['-', '-', '>']) s with hnil | hstarts
        · exact hnil
        · simp [Text.startsWith, hafter] at hstarts
      have hwhole : (Text.breakAt (Text.startsWith ['-', '-', '>']) s).1 = s := by
        have happend := Text.breakAt_append (Text.startsWith ['-', '-', '>']) s
        rwa [hnil, List.append_nil] at happend
      have hnot := not_suffix_of_unclosed hnil (by rintro ⟨r, rfl⟩; exact hclose r rfl)
        (by rintro ⟨r, rfl⟩; exact hdash r rfl)
      rw [hread, List.append_nil, hwhole, if_neg hnot, ofDocument, hopening, hnil]
      rfl

/-- The rule set that a document brings along is the one of its first token that is not blank
text. -/
theorem ofDocument_eq_ofTokens (document : List Char) :
    ofDocument document = ofTokens (scan document) := by
  cases hafter : Text.after? ['<', '!', '-', '-'] (Text.trimStart document) with
  | some s =>
    have htrim := Text.after?_eq_some_iff.1 hafter
    have hblanks : ∀ c ∈ document.takeWhile Text.isBlank, Text.isBlank c = true := by
      intro c hc
      exact List.mem_takeWhile_imp hc
    have hsplit : document = document.takeWhile Text.isBlank ++ (['<', '!', '-', '-'] ++ s) := by
      rw [← htrim]
      exact List.takeWhile_append_dropWhile.symm
    rcases find?_scan_comment (s := s) hblanks with ⟨t, hfind, hkind, hraw⟩
    rw [← hsplit] at hfind
    rw [ofDocument_comment htrim, ofTokens, hfind]
    simp only [hkind, commentKind_data, hraw, List.prefix_append, true_and]
  | none =>
    have hnone : ofDocument document = .ok none := by
      simp [ofDocument, openingComment?, hafter]
    rw [hnone, ofTokens]
    cases hfind : (scan document).find? (!·.isBlankText) with
    | none => rfl
    | some t =>
      -- a comment in that token would stand right behind the leading blanks
      have hno : ¬ ['<', '!', '-', '-'] <+: t.raw := by
        rintro ⟨r, hr⟩
        rcases exists_trimStart_of_find? hfind hr.symm (by decide) with ⟨rest, htrim⟩
        rw [htrim, ← hr, List.append_assoc, Text.after?_append] at hafter
        cases hafter
      simp [hno]

end RuleSet

end HtmlLint
