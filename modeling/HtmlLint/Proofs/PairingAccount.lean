import HtmlLint.Proofs.EventPlaces
import HtmlLint.Proofs.PairingStack

/-!
# The pairing rule accounts for every tag once

A start tag that counts is either matched by a later end tag of its name or listed in one complaint,
and an end tag is either matched by a start tag or complained about itself. The rule forgets which
tags it has matched, so the run of the rule is repeated with the tokens themselves (`PairAccount`).
The waiting tags and the findings of the rule are read off the account, token by token, and what the
account has booked stays complete with every token (`PairAccount.Books`).

* `Complaint` — a complaint of the rule, with the tags it is about, and its wording.
* `PairAccount.ofDocument` — the tags matched in a document, and the complaints.
-/

namespace HtmlLint

open PairTag

/-! ## Tags -/

namespace Token

/-- The name of a tag, in lower case. -/
def pairName (t : Token) : List Char :=
  match t.kind with
  | .startTag name _ _ => Text.lower name
  | .endTag name => Text.lower name
  | _ => []

/-- A start tag that needs an end tag. -/
def isCounted (t : Token) : Bool :=
  match t.kind with
  | .startTag name _ selfClosing =>
    !selfClosing && !Rule.unpairedElements.contains (Text.lower name)
  | _ => false

def isEndTag (t : Token) : Bool :=
  match t.kind with
  | .endTag _ => true
  | _ => false

theorem isEndTag_of_isCounted {t : Token} (h : t.isCounted = true) : t.isEndTag = false := by
  unfold isCounted at h
  unfold isEndTag
  split at h
  · rename_i hkind
    rw [hkind]
  · cases h

theorem isCounted_of_isEndTag {t : Token} (h : t.isEndTag = true) : t.isCounted = false := by
  cases hcounted : t.isCounted with
  | false => rfl
  | true =>
    rw [isEndTag_of_isCounted hcounted] at h
    cases h

/-- The location of the start of a token. -/
def location (document : List Char) (t : Token) : Location :=
  Location.start.after (Text.takeBytes t.span.start document)

/-- Tags in reverse document order. -/
def LastFirst (tags : List Token) : Prop :=
  tags.Pairwise fun a b => b.span.start < a.span.start

/-- What a token counts as, with its name. -/
theorem pairTag?_eq (t : Token) :
    t.pairTag? = if t.isCounted then some (opens t.pairName)
      else if t.isEndTag then some (closes t.pairName) else none := by
  cases hkind : t.kind with
  | startTag name attributes selfClosing =>
    simp only [pairTag?, isCounted, isEndTag, pairName, hkind]
    cases selfClosing <;> cases Rule.unpairedElements.contains (Text.lower name) <;> rfl
  | endTag name => simp [pairTag?, pairName, isCounted, isEndTag, hkind]
  | _ => simp [pairTag?, isCounted, isEndTag, hkind]

end Token

/-! ## Complaints -/

/-- A complaint of the pairing rule, with the tags it is about. -/
inductive Complaint where
  /-- An end tag has no start tag. -/
  | stray (endTag : Token)
  /-- Start tags have no end tags, the last opened first. They are given up at an end tag, or at the
  end of the document. -/
  | missing (innermost : Token) (outer : List Token) (cause : Option Token)
  deriving DecidableEq, Repr

namespace Complaint

/-- The start tags that the complaint lists. -/
def listed : Complaint → List Token
  | stray _ => []
  | missing innermost outer _ => innermost :: outer

/-- The end tags that the complaint is about. -/
def strays : Complaint → List Token
  | stray endTag => [endTag]
  | missing .. => []

/-- What the complaint says of a document. -/
def finding (document : List Char) : Complaint → Finding
  | stray endTag =>
    ⟨.error, Rule.noStartMessage endTag.raw, endTag.location document, endTag.raw⟩
  | missing innermost outer cause =>
    { severity := .error
      message := "Tag must be paired, missing: [ "
        ++ String.ofList ((innermost :: outer).flatMap fun t => '<' :: '/' :: (t.pairName ++ ['>']))
        ++ " ], start tag match failed [ " ++ String.ofList innermost.raw ++ " ] on line "
        ++ toString (innermost.location document).line ++ "."
      location := (cause.map (·.location document)).getD (Location.start.after document)
      raw := (cause.map (·.raw)).getD [] }

/-- The complaint about some start tags, if there are any. -/
def missing? (tags : List Token) (cause : Option Token) : Option Complaint :=
  match tags with
  | [] => none
  | innermost :: outer => some (.missing innermost outer cause)

theorem listed_of_mem {tags : List Token} {cause : Option Token} {c : Complaint}
    (h : c ∈ missing? tags cause) : c.listed = tags := by
  cases tags with
  | nil => cases h
  | cons innermost outer =>
    cases h
    rfl

/-- A further complaint about tags in reverse order keeps all lists in reverse order. -/
theorem lastFirst_append {complaints : List Complaint}
    (h : ∀ c ∈ complaints, Token.LastFirst c.listed) {tags : List Token}
    (htags : Token.LastFirst tags) (cause : Option Token) :
    ∀ c ∈ complaints ++ (missing? tags cause).toList, Token.LastFirst c.listed := by
  intro c hc
  rcases List.mem_append.1 hc with hc | hc
  · exact h c hc
  · rw [listed_of_mem (Option.mem_toList.1 hc)]
    exact htags

theorem flatMap_listed_missing? (tags : List Token) (cause : Option Token) :
    (missing? tags cause).toList.flatMap listed = tags := by
  cases tags <;> simp [missing?, listed]

theorem flatMap_strays_missing? (tags : List Token) (cause : Option Token) :
    (missing? tags cause).toList.flatMap strays = [] := by
  cases tags <;> simp [missing?, strays]

end Complaint

/-- The entry of a start tag among the waiting tags of the rule. -/
def Token.openTag (document : List Char) (t : Token) : Rule.OpenTag :=
  ⟨t.pairName, t.raw, (t.location document).line⟩

/-- The rule words a complaint as the complaint says. -/
theorem Rule.missingMessage?_eq (document : List Char) (innermost : Token) (outer : List Token)
    (cause : Option Token) :
    missingMessage? ((innermost :: outer).map (·.openTag document))
      = some (Complaint.finding document (.missing innermost outer cause)).message := by
  rw [List.map_cons, missingMessage?, ← List.map_cons, List.flatMap_map]
  rfl

/-- The rule finds what the complaint says. -/
theorem Rule.missing_eq (document : List Char) (tags : List Token) (cause : Option Token) :
    missing (tags.map (·.openTag document))
        ((cause.map (·.location document)).getD (Location.start.after document))
        ((cause.map (·.raw)).getD [])
      = (Complaint.missing? tags cause).toList.map (·.finding document) := by
  cases tags with
  | nil => rfl
  | cons innermost outer =>
    rw [missing, missingMessage?_eq document innermost outer cause]
    rfl

/-! ## The account -/

/-- What has become of the tags read so far. -/
structure PairAccount where
  /-- The start tags that wait for their end tags, the last opened first. -/
  waiting : List Token
  /-- The start tags that were matched, each with its end tag. -/
  matched : List (Token × Token)
  complaints : List Complaint

namespace PairAccount

def empty : PairAccount :=
  ⟨[], [], []⟩

/-- Books an end tag: it matches the nearest waiting tag of its name. -/
def close (account : PairAccount) (t : Token) : PairAccount :=
  match account.waiting.dropWhile (·.pairName != t.pairName) with
  | [] => { account with complaints := account.complaints ++ [.stray t] }
  | start :: outer =>
    let skipped := account.waiting.takeWhile (·.pairName != t.pairName)
    { waiting := outer
      matched := account.matched ++ [(start, t)]
      complaints := account.complaints ++ (Complaint.missing? skipped (some t)).toList }

/-- Books a token. -/
def after (account : PairAccount) (t : Token) : PairAccount :=
  if t.isCounted then { account with waiting := t :: account.waiting }
  else if t.isEndTag then account.close t
  else account

/-- The account of some tokens. -/
def ofTokens (tokens : List Token) : PairAccount :=
  tokens.foldl after empty

/-- Gives up the tags that are waiting at the end of the document. -/
def finish (account : PairAccount) : PairAccount :=
  { account with
    waiting := []
    complaints := account.complaints ++ (Complaint.missing? account.waiting none).toList }

/-- The account of a document. -/
def ofDocument (document : List Char) : PairAccount :=
  (ofTokens (scan document)).finish

theorem ofTokens_append (tokens : List Token) (t : Token) :
    ofTokens (tokens ++ [t]) = (ofTokens tokens).after t :=
  List.foldl_append

/-- The start tags that complaints list. -/
def listed (account : PairAccount) : List Token :=
  account.complaints.flatMap Complaint.listed

/-- The end tags that are complained about. -/
def strays (account : PairAccount) : List Token :=
  account.complaints.flatMap Complaint.strays

/-! ## Every tag is booked once -/

/-- The account books every tag of some tokens once: a start tag is waiting, matched or listed, and
an end tag is matched or complained about. -/
structure Books (account : PairAccount) (tokens : List Token) : Prop where
  starts : (account.waiting ++ (account.matched.map Prod.fst ++ account.listed)).Perm
    (tokens.filter Token.isCounted)
  ends : (account.matched.map Prod.snd ++ account.strays).Perm (tokens.filter Token.isEndTag)
  /-- A start tag is matched by a later end tag of its name. -/
  pairs : ∀ p ∈ account.matched, p.1.span.start < p.2.span.start ∧ p.1.pairName = p.2.pairName
  waiting : Token.LastFirst account.waiting
  listed : ∀ c ∈ account.complaints, Token.LastFirst c.listed

theorem empty_books : empty.Books [] :=
  ⟨.nil, .nil, by simp [empty], .nil, by simp [empty]⟩

variable {account : PairAccount} {tokens : List Token} {t : Token}

/-- Waiting tags have been read. -/
theorem Books.mem_of_waiting (h : account.Books tokens) {u : Token} (hu : u ∈ account.waiting) :
    u ∈ tokens :=
  (List.mem_filter.1 (h.starts.subset (List.mem_append_left _ hu))).1

/-- A start tag waits. -/
theorem Books.push (h : account.Books tokens) (hcounted : t.isCounted = true)
    (hlater : ∀ u ∈ tokens, u.span.start < t.span.start) :
    Books { account with waiting := t :: account.waiting } (tokens ++ [t]) := by
  refine ⟨?_, ?_, h.pairs, ?_, h.listed⟩
  · have hfilter : (tokens ++ [t]).filter Token.isCounted
        = tokens.filter Token.isCounted ++ [t] := by
      simp [List.filter_append, hcounted]
    rw [hfilter]
    exact (h.starts.cons t).trans (List.perm_append_singleton t _).symm
  · have hfilter : (tokens ++ [t]).filter Token.isEndTag = tokens.filter Token.isEndTag := by
      simp [List.filter_append, Token.isEndTag_of_isCounted hcounted]
    rw [hfilter]
    exact h.ends
  · exact List.pairwise_cons.2 ⟨fun u hu => hlater u (h.mem_of_waiting hu), h.waiting⟩

/-- What an end tag adds to the tags that are to be booked. -/
theorem filter_append_endTag (tokens : List Token) (hend : t.isEndTag = true) :
    (tokens ++ [t]).filter Token.isCounted = tokens.filter Token.isCounted
      ∧ (tokens ++ [t]).filter Token.isEndTag = tokens.filter Token.isEndTag ++ [t] := by
  simp [List.filter_append, Token.isCounted_of_isEndTag hend, hend]

/-- An end tag without a start tag is complained about. -/
theorem Books.stray (h : account.Books tokens) (hend : t.isEndTag = true) :
    Books { account with complaints := account.complaints ++ [.stray t] } (tokens ++ [t]) := by
  rcases filter_append_endTag tokens hend with ⟨hcounted, hends⟩
  refine ⟨?_, ?_, h.pairs, h.waiting, ?_⟩
  · rw [hcounted]
    simpa [PairAccount.listed, Complaint.listed] using h.starts
  · rw [hends]
    simpa [PairAccount.strays, Complaint.strays] using h.ends.append_right [t]
  · intro c hc
    rcases List.mem_append.1 hc with hc | hc
    · exact h.listed c hc
    · cases List.mem_singleton.1 hc
      exact .nil

/-- An end tag matches a start tag of its name, and the tags that wait inside of it are listed. -/
theorem Books.pair (h : account.Books tokens) (hend : t.isEndTag = true)
    (hlater : ∀ u ∈ tokens, u.span.start < t.span.start) {skipped outer : List Token}
    {start : Token} (hsplit : account.waiting = skipped ++ start :: outer)
    (hname : start.pairName = t.pairName) :
    Books
      { waiting := outer
        matched := account.matched ++ [(start, t)]
        complaints := account.complaints ++ (Complaint.missing? skipped (some t)).toList }
      (tokens ++ [t]) := by
  rcases filter_append_endTag tokens hend with ⟨hcounted, hends⟩
  have hearlier : start.span.start < t.span.start := by
    refine hlater start (h.mem_of_waiting ?_)
    rw [hsplit]
    exact List.mem_append_right _ List.mem_cons_self
  have horder := h.waiting
  rw [hsplit] at horder
  rcases List.pairwise_append.1 horder with ⟨hskipped, hrest, -⟩
  refine ⟨?_, ?_, ?_, (List.pairwise_cons.1 hrest).2,
    Complaint.lastFirst_append h.listed hskipped (some t)⟩
  · rw [hcounted]
    refine List.Perm.trans ?_ h.starts
    -- the skipped tags and the matched one have only moved to other places
    rw [hsplit]
    simp only [PairAccount.listed, List.map_append, List.flatMap_append,
      Complaint.flatMap_listed_missing?]
    refine List.perm_iff_count.2 fun u => ?_
    simp only [List.count_append, List.count_cons, List.map_cons, List.map_nil, List.count_nil]
    omega
  · rw [hends]
    refine List.Perm.trans ?_ (h.ends.append_right [t])
    simp only [PairAccount.strays, List.map_append, List.flatMap_append,
      Complaint.flatMap_strays_missing?]
    refine List.perm_iff_count.2 fun u => ?_
    simp only [List.count_append, List.map_cons, List.map_nil, List.count_nil]
    omega
  · intro p hp
    rcases List.mem_append.1 hp with hp | hp
    · exact h.pairs p hp
    · cases List.mem_singleton.1 hp
      exact ⟨hearlier, hname⟩

/-- An end tag is booked, whether a start tag of its name waits or not. -/
theorem Books.close (h : account.Books tokens) (hend : t.isEndTag = true)
    (hlater : ∀ u ∈ tokens, u.span.start < t.span.start) :
    (account.close t).Books (tokens ++ [t]) := by
  have hsplit := List.takeWhile_append_dropWhile (p := (·.pairName != t.pairName))
    (l := account.waiting)
  unfold PairAccount.close
  cases hfound : account.waiting.dropWhile (·.pairName != t.pairName) with
  | nil => exact h.stray hend
  | cons start outer =>
    -- the search has stopped at a tag of the same name
    have hname : start.pairName = t.pairName := by
      have hstop := List.head?_dropWhile_not (·.pairName != t.pairName) account.waiting
      simpa [hfound] using hstop
    rw [hfound] at hsplit
    exact h.pair hend hlater hsplit.symm hname

/-- One token keeps the account complete. -/
theorem Books.after (h : account.Books tokens)
    (hlater : ∀ u ∈ tokens, u.span.start < t.span.start) :
    (account.after t).Books (tokens ++ [t]) := by
  unfold PairAccount.after
  by_cases hcounted : t.isCounted = true
  · rw [if_pos hcounted]
    exact h.push hcounted hlater
  · rw [if_neg hcounted]
    by_cases hend : t.isEndTag = true
    · rw [if_pos hend]
      exact h.close hend hlater
    · rw [if_neg hend]
      refine ⟨?_, ?_, h.pairs, h.waiting, h.listed⟩
      · simpa [List.filter_append, hcounted] using h.starts
      · simpa [List.filter_append, hend] using h.ends

/-- Tokens in order are all booked. -/
theorem ofTokens_books {tokens : List Token}
    (h : tokens.Pairwise fun a b => a.span.start < b.span.start) :
    (ofTokens tokens).Books tokens := by
  -- the account grows at the end, so the induction takes the last token off
  induction tokens using List.reverseRecOn with
  | nil => exact empty_books
  | append_singleton tokens t ih =>
    rcases List.pairwise_append.1 h with ⟨hbefore, -, hlater⟩
    rw [ofTokens_append]
    exact (ih hbefore).after fun u hu => hlater u hu t (List.mem_singleton_self t)

/-- At the end of the document the waiting tags are listed. -/
theorem Books.finish (h : account.Books tokens) : account.finish.Books tokens := by
  refine ⟨?_, ?_, h.pairs, .nil, Complaint.lastFirst_append h.listed h.waiting none⟩
  · refine List.Perm.trans ?_ h.starts
    simp only [PairAccount.finish, PairAccount.listed, List.flatMap_append,
      Complaint.flatMap_listed_missing?]
    refine List.perm_iff_count.2 fun u => ?_
    simp only [List.count_append, List.count_nil]
    omega
  · simpa [PairAccount.finish, PairAccount.strays, Complaint.flatMap_strays_missing?] using h.ends

theorem ofDocument_books (document : List Char) : (ofDocument document).Books (scan document) :=
  (ofTokens_books (scan_pairwise_start document)).finish

/-- Start tags and complaints about end tags are as many as end tags and tags without one. -/
theorem Books.count (h : account.Books tokens) :
    tokens.countP Token.isCounted + account.strays.length
      = tokens.countP Token.isEndTag + account.waiting.length + account.listed.length := by
  have hstarts := h.starts.length_eq
  have hends := h.ends.length_eq
  rw [← List.countP_eq_length_filter, List.length_append, List.length_append,
    List.length_map] at hstarts
  rw [← List.countP_eq_length_filter, List.length_append, List.length_map] at hends
  omega

/-! ## The rule keeps the account -/

/-- The waiting tags of the rule. -/
def state (document : List Char) (account : PairAccount) : List Rule.OpenTag :=
  account.waiting.map (·.openTag document)

/-- What the rule has found. -/
def found (document : List Char) (account : PairAccount) : List Finding :=
  account.complaints.map (·.finding document)

/-- The rule takes an end tag as the account books it. -/
theorem closeTag_state (document : List Char) (account : PairAccount) (t : Token) (depth : Nat) :
    ∃ new, Rule.closeTag ⟨.tagEnd t.pairName, t.raw, t.span, t.location document, depth⟩
          (account.state document) = ((account.close t).state document, new)
      ∧ (account.close t).found document = account.found document ++ new := by
  -- rule and account search for the same name, so they stop at the same tag
  have hcomp : ((·.name != t.pairName) : Rule.OpenTag → Bool) ∘ Token.openTag document
      = fun u : Token => u.pairName != t.pairName := rfl
  simp only [Rule.closeTag, Event.tagName?, state, List.dropWhile_map, List.takeWhile_map, hcomp,
    close]
  cases hfound : account.waiting.dropWhile (·.pairName != t.pairName) with
  | nil =>
    refine ⟨[Complaint.finding document (.stray t)], rfl, ?_⟩
    exact List.map_append
  | cons start outer =>
    refine ⟨_, rfl, ?_⟩
    simp only [found, List.map_append]
    exact congrArg _ (Rule.missing_eq document _ (some t)).symm

/-- One token: the rule does what the account books. -/
theorem pairAll_state {document : List Char} {here : Walk} (hhere : here.ReadsFrom document)
    (account : PairAccount) (t : Token) :
    ∃ new, Rule.pairAll (account.state document) ((here.reach t.span.start).events t)
          = ((account.after t).state document, new)
      ∧ (account.after t).found document = account.found document ++ new := by
  -- wherever the walk comes from, at the token it knows the token's own location
  have hlocation : (here.reach t.span.start).location = t.location document := by
    rw [Walk.location, hhere.locator_reach]
    rfl
  rw [Rule.pairAll_events, Token.pairTag?_eq, hlocation, after]
  by_cases hcounted : t.isCounted = true
  · rw [if_pos hcounted, if_pos hcounted]
    exact ⟨[], rfl, (List.append_nil _).symm⟩
  · rw [if_neg hcounted, if_neg hcounted]
    by_cases hend : t.isEndTag = true
    · rw [if_pos hend, if_pos hend]
      exact closeTag_state document account t _
    · rw [if_neg hend, if_neg hend]
      exact ⟨[], rfl, (List.append_nil _).symm⟩

/-- Any tokens: the rule does what the account books. -/
theorem pairAll_allEvents {document : List Char} {here : Walk} (hhere : here.ReadsFrom document)
    (account : PairAccount) (tokens : List Token) :
    ∃ new, Rule.pairAll (account.state document) (here.allEvents tokens)
          = ((tokens.foldl after account).state document, new)
      ∧ (tokens.foldl after account).found document = account.found document ++ new := by
  induction tokens generalizing here account with
  | nil => exact ⟨[], rfl, (List.append_nil _).symm⟩
  | cons t tokens ih =>
    rcases pairAll_state hhere account t with ⟨first, hfirst, hfound⟩
    rcases ih (hhere.after t) (account.after t) with ⟨others, hothers, hfounds⟩
    refine ⟨first ++ others, ?_, ?_⟩
    · rw [Walk.allEvents_cons, Rule.pairAll_append, hfirst, hothers]
      rfl
    · rw [List.foldl_cons, hfounds, hfound, List.append_assoc]

/-- From the start of a document the rule keeps the account of what it has read. -/
theorem pairAll_ofTokens (document : List Char) (tokens : List Token) :
    Rule.pairAll [] ((Walk.atStart document).allEvents tokens)
      = ((ofTokens tokens).state document, (ofTokens tokens).found document) := by
  rcases pairAll_allEvents (Walk.atStart_readsFrom document) empty tokens with ⟨new, hrun, hfound⟩
  have hnew : (ofTokens tokens).found document = new := hfound
  rw [hnew]
  exact hrun

/-- What the rule finds in a document are the complaints of the account. -/
theorem findings_tagPair (document : List Char) :
    Rule.tagPair.findings document = (ofDocument document).found document := by
  have hrun := pairAll_ofTokens document (scan document)
  rw [← Rule.hearAll_eventsThrough] at hrun
  have hlast := Rule.pairAll_finish document ((Walk.atStart document).afterAll (scan document))
    ((ofTokens (scan document)).state document)
  rw [Rule.pairAll] at hlast
  have hgiven := Rule.missing_eq document (ofTokens (scan document)).waiting none
  rw [Rule.findings, events_eq_eventsThrough, Rule.hearAll_append, hrun, hlast,
    Rule.closeDocument, location_finish]
  simp only [ofDocument, finish, found, List.map_append]
  exact congrArg _ hgiven

end PairAccount

/-! ## In a report -/

/-- A complaint says that there is no start tag exactly if it is about an end tag. -/
theorem Complaint.countP_noStart (document : List Char) (complaints : List Complaint) :
    complaints.countP (fun c =>
        decide ((c.finding document).message = Rule.noStartMessage (c.finding document).raw))
      = (complaints.flatMap strays).length := by
  induction complaints with
  | nil => rfl
  | cons c complaints ih =>
    rw [List.countP_cons, ih, List.flatMap_cons, List.length_append, Nat.add_comm]
    congr 1
    cases c with
    | stray endTag => simp [finding, strays]
    | missing innermost outer cause =>
      have hother := Rule.missingMessage?_ne ((innermost :: outer).map (·.openTag document))
        (finding document (.missing innermost outer cause)).raw
      rw [Rule.missingMessage?_eq document innermost outer cause, Ne, Option.some_inj] at hother
      rw [if_neg (by simpa using hother)]
      rfl

namespace Registry

/-- Where the pairing rule is switched on, its diagnostics are the complaints of the account, and
after every token its waiting tags are those of the account. Every start tag that counts is either
matched or listed, and every end tag is either matched or complained about, in each case once: the
tokens of a document are distinct, and the tags of the account are theirs in another order. A start
tag is matched by a later end tag of its name, and a complaint lists start tags last one first. -/
theorem pairing_accounts_for_tags (registry : Registry) (rules : RuleSet) (document : List Char)
    (hknown : Rule.tagPair ∈ registry.rules)
    (henabled : (settleRules rules document).isEnabled Rule.tagPair.id = true) :
    ∃ matched complaints, PairAccount.ofDocument document = ⟨[], matched, complaints⟩
      ∧ (registry.lint rules document).diagnostics.filter (·.rule = Rule.tagPair.id)
        = complaints.map (fun c =>
            (c.finding document).diagnose (sourceLines document) Rule.tagPair.id)
      ∧ (∀ tokens, tokens <+: scan document →
          (registry.passOver rules document (eventsThrough document tokens)).sessions.filter
              (·.rule.id = Rule.tagPair.id)
            = [⟨Rule.tagPair,
                (PairAccount.ofTokens tokens).waiting.map (·.openTag document)⟩])
      ∧ (scan document).Nodup
      ∧ (matched.map Prod.fst ++ complaints.flatMap Complaint.listed).Perm
          ((scan document).filter Token.isCounted)
      ∧ (matched.map Prod.snd ++ complaints.flatMap Complaint.strays).Perm
          ((scan document).filter Token.isEndTag)
      ∧ (∀ p ∈ matched, p.1.span.start < p.2.span.start ∧ p.1.pairName = p.2.pairName)
      ∧ (∀ c ∈ complaints, Token.LastFirst c.listed)
      ∧ (scan document).countP Token.isCounted
          + (registry.lint rules document).diagnostics.countP
              (fun d => d.message = Rule.noStartMessage d.raw && d.rule = Rule.tagPair.id)
        = (scan document).countP Token.isEndTag
          + (complaints.flatMap Complaint.listed).length := by
  have hstarted : Rule.tagPair ∈ registry.started (settleRules rules document) :=
    mem_started.2 ⟨hknown, henabled, rfl⟩
  have hbooks := PairAccount.ofDocument_books document
  have hreport := registry.filter_lint_diagnostics rules document hstarted
  rw [PairAccount.findings_tagPair, PairAccount.found, List.map_map] at hreport
  refine ⟨(PairAccount.ofDocument document).matched, (PairAccount.ofDocument document).complaints,
    rfl, hreport, ?_, ?_, hbooks.starts, hbooks.ends, hbooks.pairs, hbooks.listed, ?_⟩
  · intro tokens _
    have hsession := (registry.passOver_tracks rules document hstarted
      (eventsThrough document tokens)).session
    rw [Rule.hearAll_eventsThrough, PairAccount.pairAll_ofTokens] at hsession
    exact hsession
  · refine (scan_pairwise_start document).imp ?_
    rintro a b hlt rfl
    exact Nat.lt_irrefl _ hlt
  · have hstrays : (registry.lint rules document).diagnostics.countP
        (fun d => d.message = Rule.noStartMessage d.raw && d.rule = Rule.tagPair.id)
        = (PairAccount.ofDocument document).strays.length := by
      rw [← List.countP_filter, hreport, List.countP_map]
      exact Complaint.countP_noStart document _
    rw [hstrays]
    exact hbooks.count

/-- A document in which `</b>` gives up two tags, `</p>` has no start tag and the last tag is left
open. -/
def skippedTags : List Char :=
  "<B><i>\n<U></b></p><u>".toList

/-- The two tags that are given up are listed last one first, and the later one is quoted. -/
theorem pairing_accounts_skippedTags :
    ((builtin.lint (RuleSet.off.set "tag-pair" true) skippedTags).diagnostics.filter
        (·.rule = Rule.tagPair.id)).map (·.message)
      = ["Tag must be paired, missing: [ </u></i> ], start tag match failed [ <U> ] on line 2.",
        "Tag must be paired, no start tag: [ </p> ]",
        "Tag must be paired, missing: [ </u> ], start tag match failed [ <u> ] on line 2."]
      ∧ (PairAccount.ofDocument skippedTags).matched.map (fun p => (p.1.raw, p.2.raw))
        = [("<B>".toList, "</b>".toList)]
      ∧ (scan skippedTags).countP Token.isCounted + 1
        = (scan skippedTags).countP Token.isEndTag + 3 := by
  have hknown : Rule.tagPair ∈ builtin.rules := List.mem_cons_of_mem _ List.mem_cons_self
  have henabled : (settleRules (RuleSet.off.set "tag-pair" true) skippedTags).isEnabled
      Rule.tagPair.id = true := by
    decide +kernel
  rcases pairing_accounts_for_tags builtin (RuleSet.off.set "tag-pair" true) skippedTags hknown
    henabled with ⟨matched, complaints, haccount, hreport, -⟩
  have hcomplaints : complaints = (PairAccount.ofDocument skippedTags).complaints := by
    rw [haccount]
  rw [hreport, hcomplaints, List.map_map]
  decide +kernel

end Registry

end HtmlLint
