import HtmlLint.Proofs.EventPlaces
import HtmlLint.Proofs.Lines
import HtmlLint.Proofs.RuleRuns
import Mathlib.Data.List.TakeWhile

/-!
# What is found about mixed indentation

The rule against mixed indentation looks at texts, from their own start and after each of their line
feeds. What it finds can be said by offsets of the document: `mixedPlaces` lists them in increasing
order, and a finding has the number of the line in which its place lies.

* `Rule.mem_mixedLines`, `Rule.pairwise_mixedLines` — the places in one text.
* `pairwise_mixedPlaces` — the places in a document come in order.
* `Rule.findings_spaceTabMixed` — what the rule finds in a document, place by place.
-/

namespace HtmlLint

/-! ## Mixed texts -/

namespace Rule

/-- One or more spaces and then a tab, or one or more tabs and then a space. -/
def OpensMixed (line : List Char) : Prop :=
  ∃ k rest, line = List.replicate (k + 1) ' ' ++ '\t' :: rest
    ∨ line = List.replicate (k + 1) '\t' ++ ' ' :: rest

/-- A run of one character, and after it another one. -/
theorem head?_dropWhile_iff {x y : Char} (hne : y ≠ x) (s : List Char) :
    (s.dropWhile (· == x)).head? = some y ↔ ∃ k rest, s = List.replicate k x ++ y :: rest := by
  constructor
  · intro h
    rcases List.head?_eq_some_iff.1 h with ⟨rest, hrest⟩
    refine ⟨(s.takeWhile (· == x)).length, rest, ?_⟩
    have hrun : s.takeWhile (· == x) = List.replicate (s.takeWhile (· == x)).length x := by
      rw [List.eq_replicate_iff]
      refine ⟨rfl, ?_⟩
      intro c hc
      simpa using List.mem_takeWhile_imp hc
    calc
      s = s.takeWhile (· == x) ++ s.dropWhile (· == x) := List.takeWhile_append_dropWhile.symm
      _ = List.replicate (s.takeWhile (· == x)).length x ++ y :: rest := by rw [← hrun, hrest]
  · rintro ⟨k, rest, rfl⟩
    have hall : ∀ c ∈ List.replicate k x, (c == x) = true := by
      intro c hc
      simpa using (List.mem_replicate.1 hc).2
    rw [List.dropWhile_append_of_pos hall]
    simp [hne]

theorem startsMixed_iff {s : List Char} : startsMixed s = true ↔ OpensMixed s := by
  constructor
  · intro h
    unfold startsMixed at h
    split at h
    · rcases (head?_dropWhile_iff (by decide) _).1 (beq_iff_eq.1 h) with ⟨k, rest, rfl⟩
      exact ⟨k, rest, .inl rfl⟩
    · rcases (head?_dropWhile_iff (by decide) _).1 (beq_iff_eq.1 h) with ⟨k, rest, rfl⟩
      exact ⟨k, rest, .inr rfl⟩
    · cases h
  · rintro ⟨k, rest, rfl | rfl⟩
    · exact beq_iff_eq.2 ((head?_dropWhile_iff (by decide) _).2 ⟨k, rest, rfl⟩)
    · exact beq_iff_eq.2 ((head?_dropWhile_iff (by decide) _).2 ⟨k, rest, rfl⟩)

/-- What follows does not matter unless it goes on with spaces or tabs. -/
theorem startsMixed_append {tail : List Char} (h : ∀ c ∈ tail.head?, c ≠ ' ' ∧ c ≠ '\t')
    (s : List Char) : startsMixed (s ++ tail) = startsMixed s := by
  have hrun : ∀ x y t, (∀ c ∈ tail.head?, c ≠ x ∧ c ≠ y) →
      (((t ++ tail).dropWhile (· == x)).head? == some y)
        = ((t.dropWhile (· == x)).head? == some y) := by
    intro x y t htail
    induction t with
    | nil =>
      cases tail with
      | nil => rfl
      | cons c tail =>
        rcases htail c rfl with ⟨hx, hy⟩
        simp [hx, hy]
    | cons d t ih =>
      by_cases hd : d = x
      · simpa [hd] using ih
      · simp [hd]
  cases s with
  | nil =>
    cases tail with
    | nil => rfl
    | cons c tail => exact startsMixed_of_ne (h c rfl).1 (h c rfl).2 tail
  | cons c s =>
    by_cases hspace : c = ' '
    · subst hspace
      exact hrun ' ' '\t' s h
    by_cases htab : c = '\t'
    · subst htab
      exact hrun '\t' ' ' s fun d hd => (h d hd).symm
    · rw [List.cons_append, startsMixed_of_ne hspace htab, startsMixed_of_ne hspace htab]

theorem ne_nil_of_startsMixed {s : List Char} (h : startsMixed s = true) : s ≠ [] := by
  rintro rfl
  cases h

/-- The places of a text that are looked at are its start and those after its line feeds. -/
theorem mem_mixedLines {text : List Char} {o : Nat} :
    o ∈ mixedLines text ↔
      ∃ lead rest, text = lead ++ rest ∧ EndsLine lead ∧ startsMixed rest = true
        ∧ o = Text.byteLength lead := by
  rw [mixedLines_eq, List.mem_map]
  constructor
  · rintro ⟨lead, hlead, rfl⟩
    rcases List.mem_append.1 hlead with hfirst | hlater
    · split at hfirst
      · next hmixed =>
        obtain rfl := List.mem_singleton.1 hfirst
        exact ⟨[], text, rfl, .nil, hmixed, rfl⟩
      · cases hfirst
    · rcases mem_mixedLeads.1 hlater with ⟨a, b, rfl, hmixed, rfl⟩
      exact ⟨a ++ ['\n'], b, by simp, .concat a, hmixed, by simp⟩
  · rintro ⟨lead, rest, rfl, hends, hmixed, rfl⟩
    refine ⟨lead, List.mem_append.2 ?_, rfl⟩
    rcases hends.eq_nil_or_concat with rfl | ⟨a, rfl⟩
    · exact .inl (by simpa using hmixed)
    · exact .inr (mem_mixedLeads.2 ⟨a, rest, by simp, hmixed, by simp⟩)

theorem byteLength_lt_of_mem_mixedLeads {passed s lead : List Char}
    (h : lead ∈ mixedLeads passed s) : Text.byteLength passed < Text.byteLength lead := by
  rcases mem_mixedLeads.1 h with ⟨a, b, -, -, rfl⟩
  have hfeed : Text.byteLength ['\n'] = 1 := rfl
  simp only [Text.byteLength_append, hfeed]
  omega

theorem pairwise_mixedLeads (passed s : List Char) :
    (mixedLeads passed s).Pairwise fun a b => Text.byteLength a < Text.byteLength b := by
  induction s generalizing passed with
  | nil => exact .nil
  | cons c s ih =>
    -- the later pieces go on after this one
    have hlater : ∀ later ∈ mixedLeads (passed ++ [c]) s,
        Text.byteLength (passed ++ [c]) < Text.byteLength later := by
      intro later hmem
      exact byteLength_lt_of_mem_mixedLeads hmem
    rw [mixedLeads]
    split
    · exact List.pairwise_cons.2 ⟨hlater, ih (passed ++ [c])⟩
    · exact ih (passed ++ [c])

theorem pairwise_mixedLines (text : List Char) : (mixedLines text).Pairwise (· < ·) := by
  have hlater : ∀ later ∈ mixedLeads [] text, Text.byteLength [] < Text.byteLength later := by
    intro later hmem
    exact byteLength_lt_of_mem_mixedLeads hmem
  rw [mixedLines_eq, List.pairwise_map]
  split
  · exact List.pairwise_cons.2 ⟨hlater, pairwise_mixedLeads [] text⟩
  · exact pairwise_mixedLeads [] text

end Rule

/-! ## Places in the document -/

/-- The offsets of the document that the rule reports in a token. -/
def Token.mixedPlaces (t : Token) : List Nat :=
  match t.kind with
  | .text => (Rule.mixedLines t.raw).map (t.span.start + ·)
  | _ => []

/-- The offsets that the rule reports. -/
def mixedPlaces (document : List Char) : List Nat :=
  (scan document).flatMap Token.mixedPlaces

theorem Token.mem_mixedPlaces {t : Token} {p : Nat} :
    p ∈ t.mixedPlaces ↔ t.kind = .text ∧ ∃ lead rest, t.raw = lead ++ rest ∧ EndsLine lead
      ∧ Rule.startsMixed rest = true ∧ p = t.span.start + Text.byteLength lead := by
  unfold Token.mixedPlaces
  split
  · next hkind =>
    simp only [List.mem_map, Rule.mem_mixedLines, hkind, true_and]
    constructor
    · rintro ⟨-, ⟨lead, rest, hraw, hends, hmixed, rfl⟩, rfl⟩
      exact ⟨lead, rest, hraw, hends, hmixed, rfl⟩
    · rintro ⟨lead, rest, hraw, hends, hmixed, rfl⟩
      exact ⟨_, ⟨lead, rest, hraw, hends, hmixed, rfl⟩, rfl⟩
  · next hkind =>
    constructor
    · nofun
    · rintro ⟨htext, -⟩
      exact absurd htext hkind

/-- The places of a token lie in the token. -/
theorem Token.contains_of_mem_mixedPlaces {t : Token} (hspan : t.span = .ofText t.span.start t.raw)
    {p : Nat} (h : p ∈ t.mixedPlaces) : t.span.Contains p := by
  rcases Token.mem_mixedPlaces.1 h with ⟨-, lead, rest, hraw, -, hmixed, rfl⟩
  have hpos := Text.byteLength_pos (Rule.ne_nil_of_startsMixed hmixed)
  have hstop : t.span.stop = t.span.start + Text.byteLength t.raw := congrArg Span.stop hspan
  rw [hraw, Text.byteLength_append] at hstop
  constructor <;> omega

/-- From a cursor on, the places come in order. -/
theorem Cursor.pairwise_mixedPlaces (here : Cursor) :
    ((here.steps.map (·.token)).flatMap Token.mixedPlaces).Pairwise (· < ·)
      ∧ ∀ p ∈ (here.steps.map (·.token)).flatMap Token.mixedPlaces, here.offset ≤ p := by
  induction here using Cursor.induction with
  | finished here hnone =>
    rw [steps_of_none hnone]
    exact ⟨.nil, nofun⟩
  | step here step hsome ih =>
    rcases ih with ⟨hordered, hlater⟩
    rcases next?_span hsome with ⟨hspan, hnext⟩
    have hstart : step.token.span.start = here.offset := by rw [hspan]; rfl
    have hinside : ∀ p ∈ step.token.mixedPlaces, step.token.span.Contains p := by
      intro p hp
      exact Token.contains_of_mem_mixedPlaces (by rw [hstart, ← hspan]) hp
    rw [steps_of_some hsome, List.map_cons, List.flatMap_cons]
    refine ⟨List.pairwise_append.2 ⟨?_, hordered, ?_⟩, ?_⟩
    · unfold Token.mixedPlaces
      split
      · rw [List.pairwise_map]
        exact (Rule.pairwise_mixedLines _).imp fun hlt => Nat.add_lt_add_left hlt _
      · exact .nil
    · -- the places of this token lie before the next one
      intro p hp q hq
      have hp := (hinside p hp).2
      have hq := hlater q hq
      omega
    · intro p hp
      rcases List.mem_append.1 hp with hp | hp
      · have hp := (hinside p hp).1
        omega
      · have hp := hlater p hp
        have hgrows := Nat.le_add_right here.offset (Text.byteLength step.token.raw)
        rw [hnext, hspan] at hp
        exact Nat.le_trans hgrows hp

theorem pairwise_mixedPlaces (document : List Char) : (mixedPlaces document).Pairwise (· < ·) :=
  (Cursor.atStart document).pairwise_mixedPlaces.1

/-! ## Findings -/

namespace Rule

/-- What the rule finds in an event. -/
def mixedFindings (e : Event) : List Finding :=
  (mixedLines e.raw).map fun offset =>
    ⟨.warning, mixedMessage, ⟨(e.locate offset).line, 1⟩, e.raw⟩

theorem hearAll_spaceTabMixed (s : Unit) (list : List Event) :
    (spaceTabMixed.hearAll s list).2
      = (list.filter (·.kind == .text)).flatMap mixedFindings := by
  induction list with
  | nil => rfl
  | cons e list ih =>
    have hreact : Listener.reactAll e (spaceTabMixed.heard e) s
        = ((), if e.kind == .text then mixedFindings e else []) := by
      rcases e with ⟨detail, raw, span, location, depth⟩
      cases detail with
      | text =>
        exact Prod.ext rfl (List.append_nil _)
      | _ => rfl
    have hstep : (spaceTabMixed.hearAll s (e :: list)).2
        = (Listener.reactAll e (spaceTabMixed.heard e) s).2
          ++ (spaceTabMixed.hearAll s list).2 := rfl
    rw [hstep, hreact, ih]
    by_cases hkind : (e.kind == .text) = true
    · simp [hkind]
    · simp [hkind]

/-- What the rule finds in a token, by places of the document. -/
def mixedFindingsOf (document : List Char) (t : Token) : List Finding :=
  t.mixedPlaces.map fun p => ⟨.warning, mixedMessage, ⟨lineOf document p, 1⟩, t.raw⟩

theorem flatMap_mixedFindings_events {here : Walk} {document before : List Char} {t : Token}
    (hcovers : t.span.Covers document before t.raw)
    (hlocation : here.location = Location.start.after before) :
    ((here.events t).filter (·.kind == .text)).flatMap mixedFindings
      = mixedFindingsOf document t := by
  cases hkind : t.kind with
  | text =>
    have hevents : here.events t = [⟨.text, t.raw, t.span, here.location, here.inside.length⟩] := by
      rw [Walk.events, hkind]
      rfl
    have hlocated : Event.Located document
        ⟨.text, t.raw, t.span, here.location, here.inside.length⟩ := ⟨before, hcovers, hlocation⟩
    have hplaces : t.mixedPlaces = (mixedLines t.raw).map (t.span.start + ·) := by
      rw [Token.mixedPlaces, hkind]
    rw [hevents, mixedFindingsOf, hplaces, List.map_map]
    refine (List.append_nil _).trans (List.map_congr_left ?_)
    intro o ho
    rcases mem_mixedLines.1 ho with ⟨lead, rest, hpiece, -, -, rfl⟩
    have hraw : t.raw = lead ++ rest := hpiece
    have hboundary : Text.floorBoundary t.raw (Text.byteLength lead) = Text.byteLength lead := by
      rw [Text.floorBoundary, hraw, Text.takeBytes_byteLength_append]
    have hline := hlocated.locate_eq (Text.byteLength lead)
    rw [hboundary] at hline
    rw [hline]
    rfl
  | startTag name attributes selfClosing =>
    have hnone : (here.events t).filter (·.kind == .text) = [] := by
      rw [List.filter_eq_nil_iff, Walk.events, hkind]
      intro e he
      rcases List.mem_cons.1 he with rfl | he
      · exact Bool.false_ne_true
      · rcases List.mem_map.1 he with ⟨item, -, rfl⟩
        exact Bool.false_ne_true
    rw [hnone, mixedFindingsOf, Token.mixedPlaces, hkind]
    rfl
  | _ =>
    rw [Walk.events, mixedFindingsOf, Token.mixedPlaces, hkind]
    rfl

end Rule

theorem Cursor.StandsIn.hearAll_spaceTabMixed {cursor : Cursor} {document : List Char}
    (hin : cursor.StandsIn document) {walk : Walk} (hwalk : walk.ReadsFrom document) :
    ((walk.allEvents (cursor.steps.map (·.token))).filter (·.kind == .text)).flatMap
        Rule.mixedFindings
      = (cursor.steps.map (·.token)).flatMap (Rule.mixedFindingsOf document) := by
  induction cursor using Cursor.induction generalizing walk with
  | finished cursor hnone =>
    rw [Cursor.steps_of_none hnone]
    rfl
  | step cursor step hsome ih =>
    rcases hin.covers hsome with ⟨before, hcovers⟩
    have hfirst := Rule.flatMap_mixedFindings_events hcovers (hwalk.location_reach hcovers)
    have hothers := ih (hin.next hsome) (hwalk.after step.token)
    rw [Cursor.steps_of_some hsome, List.map_cons, Walk.allEvents_cons, List.filter_append,
      List.flatMap_append, hfirst, hothers, List.flatMap_cons]

/-- What the rule finds in a document, place by place. -/
theorem Rule.findings_spaceTabMixed (document : List Char) :
    spaceTabMixed.findings document
      = (scan document).flatMap (Rule.mixedFindingsOf document) := by
  have htokens := (Cursor.atStart_standsIn document).hearAll_spaceTabMixed
    (Walk.atStart_readsFrom document)
  calc
    spaceTabMixed.findings document
        = ((events document).filter (·.kind == .text)).flatMap mixedFindings :=
          hearAll_spaceTabMixed _ _
    _ = (((Walk.atStart document).allEvents (scan document)).filter (·.kind == .text)).flatMap
          mixedFindings := by
        have hends : startEvent.kind ≠ .text
            ∧ ∀ here, (finishEvent document here).kind ≠ .text := ⟨nofun, nofun⟩
        simp [events_eq, List.filter_append, hends]
    _ = (scan document).flatMap (Rule.mixedFindingsOf document) := htokens

end HtmlLint
