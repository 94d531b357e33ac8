import HtmlLint.Proofs.Recoding.Events
import HtmlLint.Rule.Registry

/-!
# Rules and the ends of lines

Writing a carriage return before every line feed is a recoding that keeps all locations, so a rule
is shown the same events. The rules of the library find the same in them: the same complaints at the
same locations, with the texts they quote recoded.

* `Text.crlf` — a text with its lines ended by a carriage return and a line feed.
* `Rule.Follows` — a rule finds the same after the change. The relation on its states says what
  becomes of the texts it remembers.
-/

namespace HtmlLint

/-! ## Carriage returns before line feeds -/

/-- The text `s` with every line feed written as a carriage return and a line feed. -/
def Text.crlf (s : List Char) : List Char :=
  s.flatMap fun c => if c = '\n' then ['\r', '\n'] else [c]

/-- The same for a message. -/
def Text.crlfString (s : String) : String :=
  String.ofList (crlf s.toList)

namespace Recoding

def crlf : Recoding where
  write c := if c = '\n' then ['\r', '\n'] else [c]
  write_space c hc := by
    by_cases h : c = '\n'
    · simp [h, isSpace]
    · simp [h, hc]
  write_other c hc := by
    have h : c ≠ '\n' := by
      rintro rfl
      cases hc
    exact ⟨c, if_neg h, rfl⟩

theorem crlf_apply (s : List Char) : crlf.apply s = Text.crlf s := rfl

theorem crlf_write_of_ne {c : Char} (h : c ≠ '\n') : crlf.write c = [c] :=
  if_neg h

theorem crlf_exact : crlf.Exact := by
  intro c hc
  apply crlf_write_of_ne
  rintro rfl
  cases hc

/-- A carriage return takes up a column, but the line feed after it starts a new line from any
column. -/
theorem crlf_keepsLocations : crlf.KeepsLocations := by
  intro here s
  induction s generalizing here with
  | nil => rfl
  | cons c s ih =>
    have hc : here.after (crlf.write c) = here.next c := by
      by_cases h : c = '\n'
      · subst h
        rfl
      · simp [crlf_write_of_ne h]
    rw [apply_cons, Location.after_append, hc, ih, Location.after_cons]

theorem crlf_keeps {p : Char → Bool} (h : p '\r' = p '\n') : crlf.Keeps p := by
  intro c d hd
  by_cases hc : c = '\n'
  · subst hc
    rcases List.mem_pair.1 hd with rfl | rfl
    · exact h
    · rfl
  · rw [crlf_write_of_ne hc, List.mem_singleton] at hd
    rw [hd]

end Recoding

namespace Text

theorem crlf_eq_self {s : List Char} (h : '\n' ∉ s) : crlf s = s := by
  induction s with
  | nil => rfl
  | cons c s ih =>
    rcases not_or.1 (mt List.mem_cons.2 h) with ⟨hc, hs⟩
    have hwrite := Recoding.crlf_write_of_ne (Ne.symm hc)
    rw [← Recoding.crlf_apply, Recoding.apply_cons, hwrite, Recoding.crlf_apply, ih hs]
    rfl

theorem crlf_eq_self_of_solid {s : List Char} (h : ∀ c ∈ s, isSpace c = false) : crlf s = s :=
  Recoding.crlf_exact.apply_eq h

theorem crlfString_append (a b : String) :
    crlfString (a ++ b) = crlfString a ++ crlfString b := by
  simp [crlfString, crlf]

theorem crlfString_ofList (s : List Char) : crlfString (String.ofList s) = String.ofList (crlf s) := by
  rw [crlfString, String.toList_ofList]

theorem crlfString_eq_self {s : String} (h : '\n' ∉ s.toList) : crlfString s = s := by
  rw [crlfString, crlf_eq_self h, String.ofList_toList]

/-- The fixed words around a quoted text stay as they are. -/
theorem crlfString_between {before after : String} (hbefore : '\n' ∉ before.toList)
    (hafter : '\n' ∉ after.toList) (quoted : String) :
    crlfString (before ++ quoted ++ after) = before ++ crlfString quoted ++ after := by
  rw [crlfString_append, crlfString_append, crlfString_eq_self hbefore, crlfString_eq_self hafter]

theorem crlfString_toString (n : Nat) : crlfString (toString n) = toString n := by
  apply crlfString_eq_self
  rw [Nat.toString_eq_repr, Nat.toList_repr]
  intro hmem
  have hdigit := Nat.isDigit_of_mem_toDigits (by decide) (by decide) hmem
  cases hdigit

end Text

/-! ## Rules -/

/-- The finding with its message and its text recoded. -/
def Finding.crlf (found : Finding) : Finding :=
  { found with message := Text.crlfString found.message, raw := Text.crlf found.raw }

/-- From states in the relation `Same`, the rule reacts to the events of a recoded document as to
those of the document. -/
structure Rule.Follows (rule : Rule) (Same : rule.State → rule.State → Prop) : Prop where
  initial : Same rule.initial rule.initial
  react : ∀ l ∈ rule.listeners, ∀ {e f : Event}, Recoding.crlf.SameEvent e f →
    ∀ {s t : rule.State}, Same s t →
      Same (l.react e s).1 (l.react f t).1 ∧ (l.react f t).2 = (l.react e s).2.map Finding.crlf

namespace Rule

theorem stateless_follows {id description : String}
    {listeners : List (Target × (Event → List Finding))}
    (h : ∀ l ∈ listeners, ∀ {e f : Event}, Recoding.crlf.SameEvent e f →
      l.2 f = (l.2 e).map Finding.crlf) :
    (stateless id description listeners).Follows fun _ _ => True := by
  refine ⟨trivial, ?_⟩
  intro l hl e f hsame s t _
  rcases List.mem_map.1 hl with ⟨entry, hentry, rfl⟩
  exact ⟨trivial, h entry hentry hsame⟩

/-! ### Attributes -/

theorem ofAttribute_follows {id description : String} {offends : Attribute → Bool}
    {message : String → String}
    (hoffends : ∀ {a b : Attribute}, Recoding.crlf.SameAttribute a b → b.name = a.name →
      offends b = offends a)
    (hmessage : ∀ name, Text.crlfString (message name) = message (Text.crlfString name)) :
    (ofAttribute id description offends message).Follows fun _ _ => True := by
  apply stateless_follows
  intro l hl e f hsame
  obtain rfl := List.mem_singleton.1 hl
  have hdetail := hsame.detail
  simp only [hsame.location, hsame.raw]
  generalize e.detail = detail at hdetail
  generalize f.detail = detail' at hdetail
  cases hdetail with
  | @attr tag a b hitem =>
    have hname : b.name = a.name := by
      rw [hitem.name]
      exact Text.crlf_eq_self_of_solid hitem.solid
    have hquoted : Text.crlfString (message (String.ofList a.name))
        = message (String.ofList a.name) := by
      rw [hmessage, Text.crlfString_ofList, Text.crlf_eq_self_of_solid hitem.solid]
    simp only [hoffends hitem hname, hname]
    split
    · simp [Finding.crlf, hquoted, Recoding.crlf_apply]
    · rfl
  | _ => rfl

theorem attrLowercase_follows : attrLowercase.Follows fun _ _ => True := by
  apply ofAttribute_follows
  · intro a b _ hname
    rw [hasUppercaseName, hasUppercaseName, hname]
  · exact Text.crlfString_between (by decide) (by decide)

theorem attrDoubleQuotes_follows : attrDoubleQuotes.Follows fun _ _ => True := by
  apply ofAttribute_follows
  · intro a b hitem _
    have hempty : b.value.isEmpty = a.value.isEmpty := by
      rw [hitem.value, Bool.eq_iff_iff, List.isEmpty_iff, List.isEmpty_iff,
        Recoding.apply_eq_nil_iff]
    rw [lacksDoubleQuotes, lacksDoubleQuotes, hitem.quote, hempty]
  · exact Text.crlfString_between (by decide) (by decide)

/-! ### The doctype -/

theorem isDoctype_crlf (data : List Char) :
    isDoctype (Recoding.crlf.apply data) = isDoctype data := by
  have hname : ∀ c ∈ ['d', 'o', 'c', 't', 'y', 'p', 'e'], isSpace c = false :=
    not_isSpace_of_all rfl
  exact Recoding.sameIgnoringCase_take_apply hname Recoding.keeps_isSpace.any_head? data

theorem isSignificant_crlf {e f : Event} (h : Recoding.crlf.SameEvent e f) :
    isSignificant f = isSignificant e := by
  have hkind : f.kind = e.kind := h.detail.kind
  have hblank : Recoding.crlf.Keeps Text.isBlank := Recoding.crlf_keeps rfl
  rw [isSignificant, isSignificant, hkind, h.raw, hblank.all]

theorem checkDoctype_crlf {e f : Event} (h : Recoding.crlf.SameEvent e f) (decided : Bool) :
    checkDoctype f decided
      = ((checkDoctype e decided).1, (checkDoctype e decided).2.map Finding.crlf) := by
  have hcomplaint : checkDoctype.complaint f = (checkDoctype.complaint e).crlf := by
    have hmessage : Text.crlfString "Doctype must be first." = "Doctype must be first." :=
      Text.crlfString_eq_self (by decide)
    simp only [checkDoctype.complaint, Finding.crlf, hmessage, h.location, h.raw]
    rfl
  have hdetail := h.detail
  simp only [checkDoctype, isSignificant_crlf h, hcomplaint]
  split
  · rfl
  · generalize e.detail = a at hdetail
    generalize f.detail = b at hdetail
    cases hdetail with
    | declaration data =>
      simp only [isDoctype_crlf]
      split <;> rfl
    | _ => rfl

theorem doctypeFirst_follows : doctypeFirst.Follows Eq := by
  refine ⟨rfl, ?_⟩
  intro l hl e f hsame s t hst
  rcases List.mem_map.1 hl with ⟨kind, -, rfl⟩
  rw [← hst]
  have hreact := checkDoctype_crlf hsame s
  exact ⟨(congrArg Prod.fst hreact).symm, congrArg Prod.snd hreact⟩

/-! ### Pairs of tags -/

/-- The start tag with its text recoded. Its name has no space in it, and its line is the same. -/
def OpenTag.crlf (tag : OpenTag) : OpenTag :=
  { tag with raw := Text.crlf tag.raw }

/-- The rule waits for the same end tags. -/
def SameWaiting (s t : List OpenTag) : Prop :=
  t = s.map OpenTag.crlf ∧ ∀ tag ∈ s, ∀ c ∈ tag.name, isSpace c = false

theorem SameWaiting.missingMessage? {s t : List OpenTag} (h : SameWaiting s t) :
    missingMessage? t = (missingMessage? s).map Text.crlfString := by
  rcases h with ⟨rfl, hsolid⟩
  cases s with
  | nil => rfl
  | cons innermost outer =>
    have hends : ((innermost :: outer).map OpenTag.crlf).flatMap OpenTag.endTag
        = (innermost :: outer).flatMap OpenTag.endTag := by
      rw [List.flatMap_map]
      rfl
    -- the missing end tags are built from names, and there is no line feed in a name
    have hkept : Text.crlf ((innermost :: outer).flatMap OpenTag.endTag)
        = (innermost :: outer).flatMap OpenTag.endTag := by
      apply Text.crlf_eq_self_of_solid
      intro c hc
      rcases List.mem_flatMap.1 hc with ⟨tag, htag, hc⟩
      simp only [OpenTag.endTag, List.mem_cons, List.mem_append, List.not_mem_nil, or_false] at hc
      rcases hc with rfl | rfl | hc | rfl
      · rfl
      · rfl
      · exact hsolid tag htag c hc
      · rfl
    have hmissing : Text.crlfString "Tag must be paired, missing: [ "
        = "Tag must be paired, missing: [ " := Text.crlfString_eq_self (by decide)
    have hfailed : Text.crlfString " ], start tag match failed [ "
        = " ], start tag match failed [ " := Text.crlfString_eq_self (by decide)
    have hline : Text.crlfString " ] on line " = " ] on line " :=
      Text.crlfString_eq_self (by decide)
    have hstop : Text.crlfString "." = "." := Text.crlfString_eq_self (by decide)
    rw [List.map_cons] at hends
    simp only [Rule.missingMessage?, List.map_cons, hends, Option.map_some, Text.crlfString_append,
      Text.crlfString_ofList, Text.crlfString_toString, hkept, hmissing, hfailed, hline, hstop]
    rfl

theorem SameWaiting.missing {s t : List OpenTag} (h : SameWaiting s t) (location : Location)
    (raw : List Char) :
    missing t location (Text.crlf raw) = (missing s location raw).map Finding.crlf := by
  rw [Rule.missing, Rule.missing, h.missingMessage?]
  cases Rule.missingMessage? s <;> rfl

theorem openTag_crlf {e f : Event} (h : Recoding.crlf.SameEvent e f) {s t : List OpenTag}
    (hst : SameWaiting s t) : SameWaiting (openTag e s).1 (openTag f t).1 := by
  rcases hst with ⟨rfl, hsolid⟩
  have hdetail := h.detail
  simp only [openTag, OpenTag.ofEvent?, h.location, h.raw]
  generalize e.detail = detail at hdetail
  generalize f.detail = detail' at hdetail
  cases hdetail with
  | @tagStart name a b selfClosing hname _ =>
    dsimp only
    split
    · exact ⟨rfl, hsolid⟩
    · refine ⟨rfl, ?_⟩
      intro tag htag
      rcases List.mem_cons.1 htag with rfl | htag
      · exact hname
      · exact hsolid tag htag
  | _ => exact ⟨rfl, hsolid⟩

theorem closeTag_crlf {e f : Event} (h : Recoding.crlf.SameEvent e f) {s t : List OpenTag}
    (hst : SameWaiting s t) : SameWaiting (closeTag e s).1 (closeTag f t).1
      ∧ (closeTag f t).2 = (closeTag e s).2.map Finding.crlf := by
  have htag : f.tagName? = e.tagName? := by
    have hdetail := h.detail
    rw [Event.tagName?, Event.tagName?]
    generalize e.detail = a at hdetail
    generalize f.detail = b at hdetail
    cases hdetail <;> rfl
  simp only [closeTag, htag]
  cases e.tagName? with
  | none => exact ⟨hst, rfl⟩
  | some name =>
    -- the name of a tag is not changed, so the search stops at the same one
    have hname : ((fun tag : OpenTag => tag.name != name) ∘ OpenTag.crlf)
        = fun tag => tag.name != name := rfl
    have hdrop : t.dropWhile (·.name != name) = (s.dropWhile (·.name != name)).map OpenTag.crlf := by
      rw [hst.1, List.dropWhile_map, hname]
    have htake : SameWaiting (s.takeWhile (·.name != name)) (t.takeWhile (·.name != name)) := by
      refine ⟨by rw [hst.1, List.takeWhile_map, hname], ?_⟩
      intro tag hmem
      exact hst.2 tag ((List.takeWhile_sublist _).subset hmem)
    simp only [hdrop]
    cases hfound : s.dropWhile (·.name != name) with
    | nil =>
      have hmessage : Text.crlfString ("Tag must be paired, no start tag: [ "
          ++ String.ofList e.raw ++ " ]")
          = "Tag must be paired, no start tag: [ " ++ String.ofList (Text.crlf e.raw) ++ " ]" := by
        rw [Text.crlfString_between (by decide) (by decide), Text.crlfString_ofList]
      refine ⟨hst, ?_⟩
      simp [Finding.crlf, hmessage, h.location, h.raw, Recoding.crlf_apply]
    | cons tag outer =>
      refine ⟨⟨rfl, ?_⟩, ?_⟩
      · intro other hmem
        have hother : other ∈ s.dropWhile (·.name != name) := by simp [hfound, hmem]
        exact hst.2 other ((List.dropWhile_sublist _).subset hother)
      · simp only [h.location, h.raw, Recoding.crlf_apply]
        exact htake.missing e.location e.raw

theorem tagPair_follows : tagPair.Follows SameWaiting := by
  refine ⟨⟨rfl, by simp [tagPair]⟩, ?_⟩
  intro l hl e f hsame s t hst
  rcases List.mem_cons.1 hl with rfl | hl
  · exact ⟨openTag_crlf hsame hst, rfl⟩
  rcases List.mem_cons.1 hl with rfl | hl
  · exact closeTag_crlf hsame hst
  obtain rfl := List.mem_singleton.1 hl
  have hmissing : missing t f.location [] = (missing s e.location []).map Finding.crlf := by
    rw [hsame.location]
    exact SameWaiting.missing hst e.location []
  exact ⟨hst, hmissing⟩

/-! ### Indentation -/

theorem startsMixed_crlf (s : List Char) : startsMixed (Text.crlf s) = startsMixed s := by
  -- after a run of one character, the next one is another given character or is not
  have hrun : ∀ x y t, x ≠ '\r' → x ≠ '\n' → y ≠ '\r' → y ≠ '\n' →
      (((Text.crlf t).dropWhile (· == x)).head? == some y)
        = ((t.dropWhile (· == x)).head? == some y) := by
    intro x y t hx hx' hy hy'
    have hany : ∀ o : Option Char, (o == some y) = o.any (· == y) := by
      intro o
      cases o <;> rfl
    have hkeepx : Recoding.crlf.Keeps (· == x) := Recoding.crlf_keeps (by simp [hx.symm, hx'.symm])
    have hkeepy : Recoding.crlf.Keeps (· == y) := Recoding.crlf_keeps (by simp [hy.symm, hy'.symm])
    rw [hany, hany, ← Recoding.crlf_apply, hkeepx.dropWhile, hkeepy.any_head?]
  cases s with
  | nil => rfl
  | cons c s =>
    by_cases hspace : c = ' '
    · subst hspace
      exact hrun ' ' '\t' s (by decide) (by decide) (by decide) (by decide)
    by_cases htab : c = '\t'
    · subst htab
      exact hrun '\t' ' ' s (by decide) (by decide) (by decide) (by decide)
    rw [startsMixed_of_ne hspace htab]
    by_cases hfeed : c = '\n'
    · subst hfeed
      rfl
    · rw [← Recoding.crlf_apply, Recoding.apply_cons, Recoding.crlf_write_of_ne hfeed]
      exact startsMixed_of_ne hspace htab _

theorem mixedLeads_crlf (passed s : List Char) :
    mixedLeads (Text.crlf passed) (Text.crlf s) = (mixedLeads passed s).map Text.crlf := by
  induction s generalizing passed with
  | nil => rfl
  | cons c s ih =>
    have hwhole : Text.crlf (c :: s) = Recoding.crlf.write c ++ Text.crlf s :=
      Recoding.apply_cons (r := .crlf) c s
    have hpassed : Text.crlf (passed ++ [c]) = Text.crlf passed ++ Recoding.crlf.write c := by
      rw [← Recoding.crlf_apply, Recoding.apply_append, Recoding.apply_cons, Recoding.apply_nil,
        List.append_nil, Recoding.crlf_apply]
    have hrest := ih (passed ++ [c])
    by_cases hc : c = '\n'
    · -- no line starts at the return, and the same ones start after the line feed
      subst hc
      have hpair : Recoding.crlf.write '\n' = ['\r', '\n'] := rfl
      rw [hpair] at hwhole hpassed
      rw [hpassed] at hrest
      simp only [hwhole, List.cons_append, List.nil_append, mixedLeads, startsMixed_crlf,
        List.append_assoc, hrest]
      cases startsMixed s with
      | false => simp
      | true => simp [hpassed]
    · rw [hpassed, Recoding.crlf_write_of_ne hc] at hrest
      simp only [hwhole, Recoding.crlf_write_of_ne hc, List.cons_append, List.nil_append, mixedLeads,
        hrest]
      simp [hc]

/-- The mixed lines of a text start after certain pieces of it; the mixed lines of the recoded text
start after the recoded pieces. -/
theorem exists_mixedLeads (s : List Char) :
    ∃ leads : List (List Char), mixedLines s = leads.map Text.byteLength
      ∧ mixedLines (Text.crlf s) = (leads.map Text.crlf).map Text.byteLength
      ∧ ∀ lead ∈ leads, ∃ rest, s = lead ++ rest := by
  refine ⟨(if startsMixed s then [[]] else []) ++ mixedLeads [] s, mixedLines_eq s, ?_, ?_⟩
  · have hleads : ((if startsMixed s then [[]] else []) ++ mixedLeads [] s).map Text.crlf
        = (if startsMixed s then [[]] else []) ++ mixedLeads [] (Text.crlf s) := by
      have hlater : mixedLeads [] (Text.crlf s) = (mixedLeads [] s).map Text.crlf :=
        mixedLeads_crlf [] s
      rw [List.map_append, hlater]
      split <;> rfl
    rw [mixedLines_eq, startsMixed_crlf, hleads]
  · intro lead hlead
    rcases List.mem_append.1 hlead with hhere | hlater
    · split at hhere
      · obtain rfl := List.mem_singleton.1 hhere
        exact ⟨s, rfl⟩
      · cases hhere
    · rcases mem_mixedLeads.1 hlater with ⟨a, b, rfl, -, rfl⟩
      exact ⟨b, by simp⟩

theorem spaceTabMixed_follows : spaceTabMixed.Follows fun _ _ => True := by
  apply stateless_follows
  intro l hl e f hsame
  obtain rfl := List.mem_singleton.1 hl
  rcases exists_mixedLeads e.raw with ⟨leads, hlines, hlines', hleads⟩
  have hmessage : Text.crlfString mixedMessage = mixedMessage :=
    Text.crlfString_eq_self (by decide)
  simp only [hsame.raw, Recoding.crlf_apply, hlines, hlines', List.map_map]
  apply List.map_congr_left
  intro lead hlead
  rcases hleads lead hlead with ⟨rest, hraw⟩
  have hlocate := hsame.locate Recoding.crlf_keepsLocations hraw
  rw [Recoding.crlf_apply] at hlocate
  simp [Finding.crlf, hlocate, hmessage]

end Rule

end HtmlLint
