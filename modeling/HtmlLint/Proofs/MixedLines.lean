import HtmlLint.Proofs.Indentation
import HtmlLint.Proofs.Reading
import HtmlLint.Rule.Registry
import Mathlib.Data.List.Nodup

/-!
# Lines with mixed indentation

The rule against mixed indentation reports lines, but it looks at texts, and a text may start in the
middle of a line. So the places that it reports are of two kinds: the starts of mixed lines, and the
starts of texts that look like one.

* `mem_mixedPlaces_iff` — at which offsets of the document something is reported.
* `Offends` — a line of the document is mixed and starts in a text.
* `Token.IndentsWithin` — a mixed text starts in the middle of a line.
* `Rule.MixedStart` — a mixed line starts at an offset of a text, as far as the text alone tells.

`Registry.lint_spaceTabMixed_lines` compares the reported lines with the offending ones: they are
the same, each reported once, exactly if no mixed text starts within a line.
`Registry.lint_spaceTabMixed_starts` gives the whole report: one diagnostic for each mixed start of
a text, in order.
-/

namespace HtmlLint

/-! ## Where something is reported -/

/-- Mixed indentation stands at the offset. -/
def MixedAt (document : List Char) (p : Nat) : Prop :=
  ∃ a b, document = a ++ b ∧ Text.byteLength a = p ∧ Rule.startsMixed b = true

/-- A text goes on to the end of the document or to a `<`. -/
theorem exists_text_of_mem_scan {document : List Char} {t : Token} (ht : t ∈ scan document)
    (hkind : t.kind = .text) :
    ∃ before after, document = before ++ (t.raw ++ after)
      ∧ t.span = .ofText (Text.byteLength before) t.raw ∧ ∀ c ∈ after.head?, c = '<' := by
  rcases exists_cursor_of_mem_scan ht with ⟨here, ⟨passed, hdocument, hoffset⟩, -, rfl⟩
  refine ⟨passed, here.lexeme.rest, ?_, ?_, ?_⟩
  · rw [hdocument, ← here.lexeme_append]
    rfl
  · rw [← hoffset]
    rfl
  · intro c hc
    rcases Cursor.rest_of_text hkind with hend | hopens
    · rw [hend] at hc
      cases hc
    · rcases exists_bracket_of_opensMarkup hopens with ⟨u, hu⟩
      rw [hu] at hc
      exact (Option.some.inj hc).symm

theorem startsMixed_append_bracket {after : List Char} (h : ∀ c ∈ after.head?, c = '<')
    (s : List Char) : Rule.startsMixed (s ++ after) = Rule.startsMixed s := by
  apply Rule.startsMixed_append
  intro c hc
  obtain rfl := h c hc
  decide

/-- The places are those in a text at which mixed indentation stands and the text or a line
starts. -/
theorem mem_mixedPlaces_iff {document : List Char} {p : Nat} :
    p ∈ mixedPlaces document ↔ MixedAt document p ∧ ∃ t ∈ scan document, t.kind = .text
      ∧ t.span.Contains p ∧ (p = t.span.start ∨ AtLineStart document p) := by
  constructor
  · intro hp
    rcases List.mem_flatMap.1 hp with ⟨t, ht, hp⟩
    rcases Token.mem_mixedPlaces.1 hp with ⟨hkind, lead, rest, hraw, hends, hmixed, hplace⟩
    rcases exists_text_of_mem_scan ht hkind with ⟨before, after, hdocument, hspan, hafter⟩
    have hstart : t.span.start = Text.byteLength before := congrArg Span.start hspan
    have hsplit : document = (before ++ lead) ++ (rest ++ after) := by
      rw [hdocument, hraw]
      simp
    have hlength : Text.byteLength (before ++ lead) = p := by
      rw [hplace, hstart, Text.byteLength_append]
    refine ⟨⟨_, _, hsplit, hlength, ?_⟩, t, ht, hkind, ?_, ?_⟩
    · rw [startsMixed_append_bracket hafter, hmixed]
    · exact Token.contains_of_mem_mixedPlaces (by rw [hstart, ← hspan]) hp
    · -- a line feed before the place is in the text, unless the place is its start
      by_cases hlead : lead = []
      · exact .inl (by simp [hplace, hlead])
      · right
        rw [AtLineStart, hsplit, ← hlength, Text.takeBytes_byteLength_append,
          EndsLine.append_iff hlead]
        exact hends
  · rintro ⟨⟨a, b, hsplit, rfl, hmixed⟩, t, ht, hkind, ⟨hfrom, hto⟩, hplace⟩
    rcases exists_text_of_mem_scan ht hkind with ⟨before, after, hdocument, hspan, hafter⟩
    rw [hspan] at hfrom hto
    -- the place splits the text, and what follows the text does not go on with spaces
    rcases Text.exists_split_within (hdocument.symm.trans hsplit) hfrom hto with
      ⟨lead, rest, hraw, -, rfl, rfl⟩
    rw [startsMixed_append_bracket hafter] at hmixed
    have hstart : t.span.start = Text.byteLength before := congrArg Span.start hspan
    refine List.mem_flatMap.2 ⟨t, ht, Token.mem_mixedPlaces.2
      ⟨hkind, lead, rest, hraw, ?_, hmixed, by rw [hstart, Text.byteLength_append]⟩⟩
    by_cases hlead : lead = []
    · subst hlead
      exact .nil
    · rcases hplace with hfirst | hline
      · rw [hstart, Text.byteLength_append] at hfirst
        have hlength := Text.byteLength_pos hlead
        omega
      · rw [AtLineStart, hsplit, Text.takeBytes_byteLength_append,
          EndsLine.append_iff hlead] at hline
        exact hline

/-! ## Offending lines -/

/-- Line `number`, counted from one, is mixed and starts in a text. -/
def Offends (document : List Char) (number : Nat) : Prop :=
  ∃ n line, number = n + 1 ∧ (Text.splitOn '\n' document)[n]? = some line
    ∧ Rule.OpensMixed line
    ∧ ∃ t ∈ scan document, t.kind = .text ∧ t.span.Contains (lineStart document n)

/-- The token is a mixed text that starts within a line. -/
def Token.IndentsWithin (document : List Char) (t : Token) : Prop :=
  t.kind = .text ∧ Rule.OpensMixed t.raw ∧ ¬ AtLineStart document t.span.start

/-- The first line of a text decides whether the text starts mixed. -/
theorem startsMixed_takeWhile (s : List Char) :
    Rule.startsMixed (s.takeWhile (· != '\n')) = Rule.startsMixed s := by
  have hnext : ∀ c ∈ (s.dropWhile (· != '\n')).head?, c ≠ ' ' ∧ c ≠ '\t' := by
    intro c hc
    rcases List.head?_eq_some_iff.1 hc with ⟨rest, hrest⟩
    obtain rfl := dropWhile_ne_cons hrest
    decide
  calc
    Rule.startsMixed (s.takeWhile (· != '\n'))
        = Rule.startsMixed (s.takeWhile (· != '\n') ++ s.dropWhile (· != '\n')) :=
          (Rule.startsMixed_append hnext _).symm
    _ = Rule.startsMixed s := by rw [List.takeWhile_append_dropWhile]

/-- The offending lines are those of the places at which a line starts. -/
theorem offends_iff {document : List Char} {number : Nat} :
    Offends document number ↔
      ∃ p ∈ mixedPlaces document, AtLineStart document p ∧ lineOf document p = number := by
  constructor
  · rintro ⟨n, line, rfl, hline, hmixed, t, ht, hkind, hin⟩
    rcases exists_lead_of_line hline with ⟨lead, rest, rfl, hends, rfl, hstart, rfl⟩
    rw [hstart] at hin
    rw [← Rule.startsMixed_iff, startsMixed_takeWhile] at hmixed
    have hat : AtLineStart (lead ++ rest) (Text.byteLength lead) := by
      rw [AtLineStart, Text.takeBytes_byteLength_append]
      exact hends
    refine ⟨Text.byteLength lead, mem_mixedPlaces_iff.2 ?_, hat, lineOf_append lead rest⟩
    exact ⟨⟨lead, rest, rfl, rfl, hmixed⟩, t, ht, hkind, hin, .inr hat⟩
  · rintro ⟨p, hp, hat, rfl⟩
    rcases mem_mixedPlaces_iff.1 hp with ⟨⟨lead, rest, rfl, rfl, hmixed⟩, t, ht, hkind, hin, -⟩
    rw [AtLineStart, Text.takeBytes_byteLength_append] at hat
    rcases hat.line rest with ⟨hline, hstart⟩
    refine ⟨_, _, lineOf_append lead rest, hline, ?_, t, ht, hkind, ?_⟩
    · rw [← Rule.startsMixed_iff, startsMixed_takeWhile, hmixed]
    · rw [hstart]
      exact hin

/-- The other places are the starts of mixed texts within lines. -/
theorem exists_indentsWithin_iff {document : List Char} {p : Nat} :
    (∃ t ∈ scan document, t.IndentsWithin document ∧ t.span.start = p) ↔
      p ∈ mixedPlaces document ∧ ¬ AtLineStart document p := by
  constructor
  · rintro ⟨t, ht, ⟨hkind, hmixed, hwithin⟩, rfl⟩
    refine ⟨List.mem_flatMap.2 ⟨t, ht, Token.mem_mixedPlaces.2 ?_⟩, hwithin⟩
    exact ⟨hkind, [], t.raw, rfl, .nil, Rule.startsMixed_iff.2 hmixed, rfl⟩
  · rintro ⟨hp, hwithin⟩
    rcases mem_mixedPlaces_iff.1 hp with ⟨⟨a, b, hsplit, hlength, hmixed⟩, t, ht, hkind, -, hplace⟩
    obtain rfl : p = t.span.start := hplace.resolve_right hwithin
    refine ⟨t, ht, ⟨hkind, ?_, hwithin⟩, rfl⟩
    rcases exists_text_of_mem_scan ht hkind with ⟨before, after, hdocument, hspan, hafter⟩
    have hstart : t.span.start = Text.byteLength before := congrArg Span.start hspan
    -- both splits of the document are at the start of the text
    have hb : b = t.raw ++ after := by
      have hdrop := Text.dropBytes_byteLength_append before (t.raw ++ after)
      rw [← hdocument, ← hstart, ← hlength, hsplit, Text.dropBytes_byteLength_append] at hdrop
      exact hdrop
    rw [hb, startsMixed_append_bracket hafter] at hmixed
    exact Rule.startsMixed_iff.1 hmixed

/-! ## Reported lines -/

/-- The reported lines, by places. -/
def mixedLineNumbers (document : List Char) : List Nat :=
  (mixedPlaces document).map (lineOf document)

theorem pairwise_mixedLineNumbers (document : List Char) :
    (mixedLineNumbers document).Pairwise (· ≤ ·) := by
  rw [mixedLineNumbers, List.pairwise_map]
  exact (pairwise_mixedPlaces document).imp fun hlt =>
    lineOf_le_lineOf document (Nat.le_of_lt hlt)

theorem mem_mixedLineNumbers {document : List Char} {number : Nat} :
    number ∈ mixedLineNumbers document ↔ Offends document number
      ∨ ∃ t ∈ scan document, t.IndentsWithin document ∧ lineOf document t.span.start = number := by
  rw [mixedLineNumbers, List.mem_map, offends_iff]
  constructor
  · rintro ⟨p, hp, hline⟩
    by_cases hat : AtLineStart document p
    · exact .inl ⟨p, hp, hat, hline⟩
    · rcases exists_indentsWithin_iff.2 ⟨hp, hat⟩ with ⟨t, ht, hwithin, rfl⟩
      exact .inr ⟨t, ht, hwithin, hline⟩
  · rintro (⟨p, hp, -, hline⟩ | ⟨t, ht, hwithin, hline⟩)
    · exact ⟨p, hp, hline⟩
    · have hp := (exists_indentsWithin_iff.1 ⟨t, ht, hwithin, rfl⟩).1
      exact ⟨t.span.start, hp, hline⟩

/-- Each offending line is reported once and no other line is, exactly if no mixed text starts
within a line. -/
theorem mixedLineNumbers_exact_iff (document : List Char) :
    ((mixedLineNumbers document).Pairwise (· < ·)
        ∧ ∀ number, number ∈ mixedLineNumbers document ↔ Offends document number)
      ↔ ∀ t ∈ scan document, ¬ t.IndentsWithin document := by
  constructor
  · rintro ⟨hstrict, hexact⟩ t ht hwithin
    rcases exists_indentsWithin_iff.1 ⟨t, ht, hwithin, rfl⟩ with ⟨hp, hnot⟩
    have hreported : lineOf document t.span.start ∈ mixedLineNumbers document :=
      List.mem_map_of_mem hp
    rcases offends_iff.1 ((hexact _).1 hreported) with ⟨q, hq, hat, hline⟩
    -- the line is reported again, at its start
    have hsame : q = t.span.start :=
      List.inj_on_of_nodup_map (hstrict.imp Nat.ne_of_lt) hq hp hline
    exact hnot (hsame ▸ hat)
  · intro hnone
    -- only starts of lines are left, and between two of them there is a line feed
    have hlines : ∀ p ∈ mixedPlaces document, AtLineStart document p := by
      intro p hp
      by_contra hat
      rcases exists_indentsWithin_iff.2 ⟨hp, hat⟩ with ⟨t, ht, hwithin, -⟩
      exact hnone t ht hwithin
    refine ⟨?_, ?_⟩
    · rw [mixedLineNumbers, List.pairwise_map]
      refine (pairwise_mixedPlaces document).imp_of_mem ?_
      intro p q _ hq hlt
      rcases (mem_mixedPlaces_iff.1 hq).1 with ⟨a, b, hsplit, hlength, -⟩
      exact lineOf_lt_lineOf (Text.isBoundary_iff.2 ⟨a, b, hsplit, hlength⟩) (hlines q hq) hlt
    · intro number
      rw [mem_mixedLineNumbers, or_iff_left]
      rintro ⟨t, ht, hwithin, -⟩
      exact hnone t ht hwithin

namespace Registry

theorem lint_spaceTabMixed_lines_eq (registry : Registry) (rules : RuleSet) (document : List Char)
    (hknown : Rule.spaceTabMixed ∈ registry.rules)
    (hsole : ∀ rule ∈ registry.rules,
      (settleRules rules document).isEnabled rule.id = true ↔ rule.id = Rule.spaceTabMixed.id) :
    (registry.lint rules document).diagnostics.map (·.location.line)
      = mixedLineNumbers document := by
  rw [registry.lint_diagnostics_of_sole_id rules document hknown rfl hsole,
    Rule.findings_spaceTabMixed, mixedLineNumbers, mixedPlaces]
  simp only [List.map_flatMap, List.map_map, Rule.mixedFindingsOf]
  rfl

/-- Where the rule against mixed indentation is the only rule that is switched on, the reported
lines come in order, and they are the offending lines and those within which a mixed text starts.
Each offending line is reported once and no other line is, exactly if no mixed text starts within a
line. -/
theorem lint_spaceTabMixed_lines (registry : Registry) (rules : RuleSet) (document : List Char)
    (hknown : Rule.spaceTabMixed ∈ registry.rules)
    (hsole : ∀ rule ∈ registry.rules,
      (settleRules rules document).isEnabled rule.id = true ↔ rule.id = Rule.spaceTabMixed.id) :
    let lines := (registry.lint rules document).diagnostics.map (·.location.line)
    lines.Pairwise (· ≤ ·)
      ∧ (∀ number, number ∈ lines ↔ Offends document number
        ∨ ∃ t ∈ scan document, t.IndentsWithin document
          ∧ lineOf document t.span.start = number)
      ∧ ((lines.Pairwise (· < ·) ∧ ∀ number, number ∈ lines ↔ Offends document number)
        ↔ ∀ t ∈ scan document, ¬ t.IndentsWithin document) := by
  intro lines
  have hlines : lines = mixedLineNumbers document :=
    registry.lint_spaceTabMixed_lines_eq rules document hknown hsole
  rw [hlines]
  exact ⟨pairwise_mixedLineNumbers document, fun _ => mem_mixedLineNumbers,
    mixedLineNumbers_exact_iff document⟩

/-- In the two lines ` →a<i>` and `→ b` both are mixed, one at the start of the document and one in
a text that starts before it; each is reported once. -/
theorem lint_mixedLines_once :
    let document := " \ta<i>\n\t b".toList
    let rules := RuleSet.off.set "space-tab-mixed-disabled" true
    let lines := (builtin.lint rules document).diagnostics.map (·.location.line)
    (∀ rule ∈ builtin.rules,
        (settleRules rules document).isEnabled rule.id = true ↔ rule.id = Rule.spaceTabMixed.id)
      ∧ lines = [1, 2]
      ∧ lines.Pairwise (· < ·) ∧ ∀ number, number ∈ lines ↔ Offends document number := by
  intro document rules lines
  have hsole := builtin.isEnabled_iff_of_off_set document "space-tab-mixed-disabled" rfl
  have hknown : Rule.spaceTabMixed ∈ builtin.rules := by
    have hrules : builtin.rules = builtinRules := rfl
    simp [hrules, builtinRules]
  have hexact := (lint_spaceTabMixed_lines builtin rules document hknown hsole).2.2.2
  refine ⟨hsole, by decide +kernel, hexact ?_⟩
  -- the only mixed text starts with the document
  rintro t ht ⟨-, hmixed, hwithin⟩
  have hfirst : ∀ t ∈ scan document, Rule.startsMixed t.raw = true → t.span.start = 0 := by
    decide +kernel
  rw [hfirst t ht (Rule.startsMixed_iff.2 hmixed)] at hwithin
  exact hwithin .nil

/-- In the two lines ` →a<i> →b` and `c<i> →d` a mixed text starts within each. The first line is
reported twice, and the second is reported though it is not mixed. -/
theorem lint_mixed_within_lines :
    let document := " \ta<i> \tb\nc<i> \td".toList
    let rules := RuleSet.off.set "space-tab-mixed-disabled" true
    let lines := (builtin.lint rules document).diagnostics.map (·.location.line)
    lines = [1, 1, 2] ∧ ¬ lines.Pairwise (· < ·) ∧ 2 ∈ lines ∧ ¬ Offends document 2 := by
  intro document rules lines
  have hlines : lines = [1, 1, 2] := by decide +kernel
  refine ⟨hlines, by rw [hlines]; decide, by rw [hlines]; decide, ?_⟩
  rintro ⟨n, line, hn, hline, hmixed, -⟩
  obtain rfl : n = 1 := by omega
  have hsecond : (Text.splitOn '\n' document)[1]? = some "c<i> \td".toList := by decide +kernel
  obtain rfl : "c<i> \td".toList = line := Option.some.inj (hsecond.symm.trans hline)
  have hstarts := Rule.startsMixed_iff.2 hmixed
  revert hstarts
  decide

end Registry

/-! ## Reported starts -/

/-- At offset `o` of the text a mixed line starts: the offset is the first one or comes right after
a line feed, and mixed indentation stands there. -/
def Rule.MixedStart (text : List Char) (o : Nat) : Prop :=
  ∃ lead rest, text = lead ++ rest ∧ Text.byteLength lead = o
    ∧ (o = 0 ∨ lead.getLast? = some '\n') ∧ Rule.OpensMixed rest

/-- The rule looks at exactly these offsets. -/
theorem Rule.mem_mixedLines_iff {text : List Char} {o : Nat} :
    o ∈ mixedLines text ↔ MixedStart text o := by
  have hends : ∀ lead : List Char,
      EndsLine lead ↔ Text.byteLength lead = 0 ∨ lead.getLast? = some '\n' := by
    intro lead
    cases hlast : lead.getLast? with
    | none =>
      have hnil : lead = [] := List.getLast?_eq_none_iff.1 hlast
      simp [hnil, EndsLine.nil]
    | some c =>
      have hsize : Text.byteLength lead ≠ 0 := by
        refine (Text.byteLength_pos ?_).ne'
        intro hnil
        simp [hnil] at hlast
      simp [EndsLine, hlast, hsize]
  rw [mem_mixedLines]
  constructor
  · intro h
    rcases h with ⟨lead, rest, htext, hline, hmixed, rfl⟩
    exact ⟨lead, rest, htext, rfl, (hends lead).1 hline, startsMixed_iff.1 hmixed⟩
  · intro h
    rcases h with ⟨lead, rest, htext, rfl, hline, hmixed⟩
    exact ⟨lead, rest, htext, (hends lead).2 hline, startsMixed_iff.2 hmixed, rfl⟩

/-- The mixed starts of a token, each with the token. Only texts have any. -/
def Token.mixedStarts (t : Token) : List (Token × Nat) :=
  match t.kind with
  | .text => (Rule.mixedLines t.raw).map (t, ·)
  | _ => []

/-- The mixed starts of all texts of a document. -/
def mixedStarts (document : List Char) : List (Token × Nat) :=
  (scan document).flatMap Token.mixedStarts

theorem Token.mem_mixedStarts {t u : Token} {o : Nat} :
    (t, o) ∈ u.mixedStarts ↔ t = u ∧ t.kind = .text ∧ Rule.MixedStart t.raw o := by
  unfold Token.mixedStarts
  split
  · next hkind =>
    rw [List.mem_map]
    constructor
    · intro h
      rcases h with ⟨found, hfound, hpair⟩
      rcases Prod.mk.inj hpair with ⟨rfl, rfl⟩
      exact ⟨rfl, hkind, Rule.mem_mixedLines_iff.1 hfound⟩
    · intro h
      rcases h with ⟨rfl, -, hstart⟩
      exact ⟨o, Rule.mem_mixedLines_iff.2 hstart, rfl⟩
  · next hkind =>
    constructor
    · intro h
      cases h
    · intro h
      rcases h with ⟨rfl, htext, -⟩
      exact absurd htext hkind

theorem mem_mixedStarts {document : List Char} {t : Token} {o : Nat} :
    (t, o) ∈ mixedStarts document ↔
      t ∈ scan document ∧ t.kind = .text ∧ Rule.MixedStart t.raw o := by
  simp only [mixedStarts, List.mem_flatMap, Token.mem_mixedStarts]
  constructor
  · intro h
    rcases h with ⟨u, hu, rfl, hkind, hstart⟩
    exact ⟨hu, hkind, hstart⟩
  · intro h
    rcases h with ⟨ht, hkind, hstart⟩
    exact ⟨t, ht, rfl, hkind, hstart⟩

/-- The mixed starts come token by token, and in each text from its start to its end. -/
theorem pairwise_mixedStarts (document : List Char) :
    (mixedStarts document).Pairwise fun a b =>
      a.1.span.start < b.1.span.start ∨ a.1 = b.1 ∧ a.2 < b.2 := by
  refine List.pairwise_flatMap.2 ⟨?_, ?_⟩
  · intro t _
    unfold Token.mixedStarts
    split
    · -- two starts of one text
      refine List.pairwise_map.2 ((Rule.pairwise_mixedLines t.raw).imp ?_)
      intro p q hlt
      exact .inr ⟨rfl, hlt⟩
    · exact .nil
  · -- the starts of two texts, which are ordered like the texts
    refine (scan_pairwise_start document).imp ?_
    intro t u hlt a ha b hb
    have hfirst : a.1 = t := (Token.mem_mixedStarts.1 ha).1
    have hsecond : b.1 = u := (Token.mem_mixedStarts.1 hb).1
    rw [hfirst, hsecond]
    exact .inl hlt

/-- What the rule finds in a token, start by start. -/
theorem Rule.mixedFindingsOf_eq (document : List Char) (t : Token) :
    mixedFindingsOf document t = t.mixedStarts.map fun p =>
      ⟨.warning, mixedMessage, ⟨lineOf document (p.1.span.start + p.2), 1⟩, p.1.raw⟩ := by
  cases hkind : t.kind with
  | text =>
    simp [mixedFindingsOf, Token.mixedPlaces, Token.mixedStarts, hkind, Function.comp_def]
  | _ => simp [mixedFindingsOf, Token.mixedPlaces, Token.mixedStarts, hkind]

namespace Registry

/-- Where the rule against mixed indentation is the only rule that is switched on, there is one
diagnostic for each mixed start of a text, in the order of the texts and of the offsets in them. It
gives the number of the line by the line feeds before the start, the first column and the whole
text. -/
theorem lint_spaceTabMixed_starts (registry : Registry) (rules : RuleSet) (document : List Char)
    (hknown : Rule.spaceTabMixed ∈ registry.rules)
    (hsole : ∀ rule ∈ registry.rules,
      (settleRules rules document).isEnabled rule.id = true ↔ rule.id = Rule.spaceTabMixed.id) :
    ∃ starts : List (Token × Nat),
      (∀ t o, (t, o) ∈ starts ↔
        t ∈ scan document ∧ t.kind = .text ∧ Rule.MixedStart t.raw o)
      ∧ starts.Pairwise (fun a b =>
        a.1.span.start < b.1.span.start ∨ a.1 = b.1 ∧ a.2 < b.2)
      ∧ (registry.lint rules document).diagnostics = starts.map fun (t, o) =>
        let line := 1 + (Text.takeBytes (t.span.start + o) document).count '\n'
        { rule := "space-tab-mixed-disabled"
          severity := .warning
          message := "There were spaces and tabs used together in front of a line."
          location := ⟨line, 1⟩
          raw := t.raw
          evidence := lineAt (sourceLines document) line } := by
  refine ⟨mixedStarts document, fun t o => mem_mixedStarts, pairwise_mixedStarts document, ?_⟩
  calc
    (registry.lint rules document).diagnostics
        = ((scan document).flatMap (Rule.mixedFindingsOf document)).map
            (·.diagnose (sourceLines document) Rule.spaceTabMixed.id) := by
          rw [registry.lint_diagnostics_of_sole_id rules document hknown rfl hsole,
            Rule.findings_spaceTabMixed]
    _ = (mixedStarts document).map fun p =>
          Finding.diagnose
            ⟨.warning, Rule.mixedMessage, ⟨lineOf document (p.1.span.start + p.2), 1⟩, p.1.raw⟩
            (sourceLines document) Rule.spaceTabMixed.id := by
          simp only [mixedStarts, Rule.mixedFindingsOf_eq, List.map_flatMap, List.map_map]
          rfl
    _ = _ := by
          refine List.map_congr_left ?_
          intro p _
          simp only [lineOf_eq, Nat.add_comm _ 1]
          rfl

/-- In `é`, a line feed, `→ b<i> →c`, the first text has a mixed start behind its line feed and the
second one at its own start. Both are on line two, and each is reported with its whole text. -/
theorem lint_two_mixed_starts :
    let document := "é\n\t b<i> \tc".toList
    let rules := RuleSet.off.set "space-tab-mixed-disabled" true
    let reported := (builtin.lint rules document).diagnostics.map fun d => (d.location, d.raw)
    (∀ rule ∈ builtin.rules,
        (settleRules rules document).isEnabled rule.id = true ↔ rule.id = Rule.spaceTabMixed.id)
      ∧ (⟨2, 1⟩, "é\n\t b".toList) ∈ reported
      ∧ (⟨2, 1⟩, " \tc".toList) ∈ reported := by
  intro document rules reported
  have hsole := builtin.isEnabled_iff_of_off_set document "space-tab-mixed-disabled" rfl
  have hknown : Rule.spaceTabMixed ∈ builtin.rules := by
    have hrules : builtin.rules = builtinRules := rfl
    simp [hrules, builtinRules]
  rcases lint_spaceTabMixed_starts builtin rules document hknown hsole with
    ⟨starts, hmem, -, hreport⟩
  have hlisted : ∀ t o, (t, o) ∈ starts →
      (⟨1 + (Text.takeBytes (t.span.start + o) document).count '\n', 1⟩, t.raw) ∈ reported := by
    intro t o hstart
    simp only [reported, hreport, List.map_map]
    exact List.mem_map.2 ⟨(t, o), hstart, rfl⟩
  refine ⟨hsole, ?_, ?_⟩
  · refine hlisted ⟨.text, "é\n\t b".toList, ⟨0, 6⟩⟩ 3 ((hmem _ _).2 ⟨by decide +kernel, rfl, ?_⟩)
    exact ⟨"é\n".toList, "\t b".toList, by decide, by decide, .inr (by decide), 0, ['b'],
      .inr (by decide)⟩
  · refine hlisted ⟨.text, " \tc".toList, ⟨9, 12⟩⟩ 0 ((hmem _ _).2 ⟨by decide +kernel, rfl, ?_⟩)
    exact ⟨[], " \tc".toList, by decide, by decide, .inl rfl, 0, ['c'], .inl (by decide)⟩

end Registry

end HtmlLint
