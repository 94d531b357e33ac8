import HtmlLint.Proofs.Indentation
import HtmlLint.Proofs.LocationOrder
import Mathlib.Data.List.Flatten

/-!
# Where reports point, and in which order

Every diagnostic is about an offset of the document. For most rules that is the start of the event
in which something was found, and the diagnostic has the location of it; the rule against mixed
indentation looks into its texts, and gives the line only. The events come in the order of their
places and so do the calls, because the one rule that looks ahead is called last.

* `Diagnostic.About` — what a diagnostic says about the offset it is about.
* `Call.reach` — how far into the document the findings of a call go.
* `Pass.InOrder` — the invariant of a pass: what is reported so far is in order, and not about
  anything after a certain offset.
-/

namespace HtmlLint

/-! ## What diagnostics are about -/

namespace Diagnostic

/-- The diagnostic is about offset `p`: it names the line of `p` and shows it. Where the rule gives
a column too, it names the location of `p` and quotes what stands there. -/
structure About (document : List Char) (d : Diagnostic) (p : Nat) : Prop where
  boundary : Text.isBoundary document p = true
  line : d.location.line = lineOf document p
  evidence : d.evidence = lineAt (sourceLines document) d.location.line
  exact : d.rule ≠ Rule.spaceTabMixed.id →
    d.location = Location.start.after (Text.takeBytes p document)
      ∧ d.raw <+: Text.dropBytes p document

/-- The first diagnostic is not about anything after what the second one is about. -/
def Before (document : List Char) (d d' : Diagnostic) : Prop :=
  ∃ p q, d.About document p ∧ d'.About document q ∧ p ≤ q

end Diagnostic

/-- How far into the event `e` the findings of a rule go. -/
def Event.reach (e : Event) (rule : String) : Nat :=
  if rule = Rule.spaceTabMixed.id then e.span.stop else e.span.start

namespace Rule

/-- What the rule finds in an event it reports at the start of the event. -/
def Prompt (rule : Rule) : Prop :=
  ∀ l ∈ rule.listeners, ∀ e s, ∀ f ∈ (l.react e s).2, f.location = e.location ∧ f.raw <+: e.raw

theorem prompt_doctypeFirst : doctypeFirst.Prompt := by
  intro l hl e s f hf
  obtain ⟨kind, -, rfl⟩ := List.mem_map.1 hl
  obtain rfl : f = checkDoctype.complaint e := by
    simp only [checkDoctype] at hf
    grind
  exact ⟨rfl, List.prefix_rfl⟩

theorem prompt_ofAttribute (id description : String) (offends : Attribute → Bool)
    (message : String → String) : (ofAttribute id description offends message).Prompt := by
  intro l hl e s f hf
  obtain rfl := List.mem_singleton.1 hl
  dsimp only at hf
  split at hf
  · split at hf
    · obtain rfl := List.mem_singleton.1 hf
      exact ⟨rfl, List.prefix_rfl⟩
    · cases hf
  · cases hf

theorem mem_missing {tags : List OpenTag} {location : Location} {raw : List Char} {f : Finding}
    (h : f ∈ missing tags location raw) : f.location = location ∧ f.raw = raw := by
  rcases List.mem_map.1 h with ⟨message, -, rfl⟩
  exact ⟨rfl, rfl⟩

theorem prompt_tagPair : tagPair.Prompt := by
  intro l hl e s f hf
  rcases List.mem_cons.1 hl with rfl | hl
  · cases hf
  rcases List.mem_cons.1 hl with rfl | hl
  · simp only [closeTag] at hf
    split at hf
    · cases hf
    · split at hf
      · obtain rfl := List.mem_singleton.1 hf
        exact ⟨rfl, List.prefix_rfl⟩
      · rcases mem_missing hf with ⟨hlocation, hraw⟩
        exact ⟨hlocation, hraw ▸ List.prefix_rfl⟩
  · obtain rfl := List.mem_singleton.1 hl
    rcases mem_missing hf with ⟨hlocation, hraw⟩
    exact ⟨hlocation, hraw ▸ List.nil_prefix⟩

/-- All rules but the one against mixed indentation are prompt. -/
theorem prompt_of_mem_builtinRules {rule : Rule} (h : rule ∈ Registry.builtinRules) :
    rule = spaceTabMixed ∨ rule.Prompt ∧ rule.id ≠ spaceTabMixed.id := by
  simp only [Registry.builtinRules, List.mem_cons, List.not_mem_nil, or_false] at h
  rcases h with rfl | rfl | rfl | rfl | rfl
  · exact .inr ⟨prompt_doctypeFirst, by decide⟩
  · exact .inr ⟨prompt_tagPair, by decide⟩
  · exact .inr ⟨prompt_ofAttribute _ _ _ _, by decide⟩
  · exact .inr ⟨prompt_ofAttribute _ _ _ _, by decide⟩
  · exact .inl rfl

/-- A prompt finding is about the start of its event. -/
theorem about_start {document : List Char} {e : Event} (he : e.Located document) {f : Finding}
    (hlocation : f.location = e.location) (hraw : f.raw <+: e.raw) (id : String) :
    (f.diagnose (sourceLines document) id).About document e.span.start := by
  have hwhole := hlocation.trans he.location_eq
  rcases he with ⟨before, hcovers, -⟩
  have hdrop : e.raw <+: Text.dropBytes e.span.start document := by
    rcases hcovers.split with ⟨after, hsplit⟩
    rw [hcovers.start_eq, hsplit, Text.dropBytes_byteLength_append]
    exact List.prefix_append e.raw after
  exact ⟨hcovers.boundaries.2.1, congrArg Location.line hwhole, rfl,
    fun _ => ⟨hwhole, hraw.trans hdrop⟩⟩

/-- What is found about a mixed line is about the place where the line starts. -/
theorem about_mixedLine {document : List Char} {e : Event} (he : e.Located document) {o : Nat}
    (ho : o ∈ mixedLines e.raw) :
    (Finding.diagnose ⟨.warning, mixedMessage, ⟨(e.locate o).line, 1⟩, e.raw⟩
        (sourceLines document) spaceTabMixed.id).About document (e.span.start + o)
      ∧ e.span.start + o ≤ e.span.stop := by
  rcases mem_mixedLines.1 ho with ⟨lead, rest, hraw, -, -, rfl⟩
  have hfloor : Text.floorBoundary e.raw (Text.byteLength lead) = Text.byteLength lead := by
    rw [Text.floorBoundary, hraw, Text.takeBytes_byteLength_append]
  have hplace := he.locate_eq (Text.byteLength lead)
  rw [hfloor] at hplace
  have hline : (e.locate (Text.byteLength lead)).line
      = lineOf document (e.span.start + Text.byteLength lead) := by
    rw [hplace]
    rfl
  rcases he with ⟨before, hcovers, -⟩
  have hinside : (Span.ofText (e.span.start + Text.byteLength lead) rest).Covers document
      (before ++ lead) rest :=
    hcovers.piece (by rw [hraw, List.append_nil]) rfl
  refine ⟨⟨hinside.boundaries.2.1, hline, rfl, fun h => absurd rfl h⟩, ?_⟩
  rw [hcovers.stop_eq, hraw, Text.byteLength_append]
  omega

/-- What a listener finds in an event is about places in the event, in order. -/
theorem about_of_react {rule : Rule} (hrule : rule ∈ Registry.builtinRules)
    {l : Listener rule.State} (hl : l ∈ rule.listeners) {document : List Char} {e : Event}
    (he : e.Located document) (s : rule.State) :
    (((l.react e s).2.map (·.diagnose (sourceLines document) rule.id)).Pairwise
        (Diagnostic.Before document))
      ∧ ∀ d ∈ (l.react e s).2.map (·.diagnose (sourceLines document) rule.id),
          ∃ p, d.About document p ∧ e.span.start ≤ p ∧ p ≤ e.reach rule.id := by
  rcases prompt_of_mem_builtinRules hrule with rfl | ⟨hprompt, hid⟩
  · obtain rfl := List.mem_singleton.1 hl
    simp only [List.map_map]
    refine ⟨?_, ?_⟩
    · rw [List.pairwise_map]
      refine (pairwise_mixedLines e.raw).imp_of_mem ?_
      intro o o' ho ho' hlt
      exact ⟨_, _, (about_mixedLine he ho).1, (about_mixedLine he ho').1, by omega⟩
    · intro d hd
      rcases List.mem_map.1 hd with ⟨o, ho, rfl⟩
      rcases about_mixedLine he ho with ⟨habout, hstop⟩
      exact ⟨_, habout, Nat.le_add_right _ _, by rwa [Event.reach, if_pos rfl]⟩
  · have habout : ∀ d ∈ (l.react e s).2.map (·.diagnose (sourceLines document) rule.id),
        d.About document e.span.start := by
      intro d hd
      rcases List.mem_map.1 hd with ⟨f, hf, rfl⟩
      rcases hprompt l hl e s f hf with ⟨hlocation, hraw⟩
      exact about_start he hlocation hraw rule.id
    refine ⟨?_, ?_⟩
    · refine List.pairwise_of_forall_mem_list ?_
      intro d hd d' hd'
      exact ⟨_, _, habout d hd, habout d' hd', Nat.le_refl _⟩
    · intro d hd
      exact ⟨_, habout d hd, Nat.le_refl _, by rw [Event.reach, if_neg hid]⟩

end Rule

/-! ## Calls in order -/

/-- The events come in the order of their places, and nothing comes inside of a text. -/
def Event.Precedes (a b : Event) : Prop :=
  a.span.start ≤ b.span.start ∧ (a.kind = .text → a.span.stop ≤ b.span.start)

theorem Event.attributeParts_of_text {e : Event} (h : e.kind = .text) : e.attributeParts = [] := by
  rcases e with ⟨detail, raw, span, location, depth⟩
  cases detail with
  | tagStart => cases h
  | _ => rfl

/-- The events of one token are in order and lie in the token. -/
theorem Walk.events_precede {here : Walk} {source before : List Char} {t : Token}
    (hcovers : t.span.Covers source before t.raw)
    (hlocation : here.location = Location.start.after before)
    (hlaid : LaidOut t.span.start t.kind.attributes t.raw) :
    (here.events t).Pairwise Event.Precedes
      ∧ ∀ e ∈ here.events t, t.span.start ≤ e.span.start ∧ e.span.start ≤ e.span.stop
        ∧ e.span.stop ≤ t.span.stop := by
  rcases here.exists_events_eq t with ⟨e, tag, hevents, -, hspan, -⟩
  rcases Walk.events_located hcovers hlocation hlaid with
    ⟨e', items, hevents', -, hkind, hitems, hlocated⟩
  obtain rfl : e = e' := (List.cons.inj (hevents.symm.trans hevents')).1
  have hforward : ∀ f ∈ e :: items, f.span.start ≤ f.span.stop := by
    intro f hf
    rcases hlocated f hf with ⟨before, hcovers, -⟩
    exact hcovers.boundaries.1
  rw [hevents']
  refine ⟨List.pairwise_cons.2 ⟨?_, ?_⟩, ?_⟩
  · intro item hitem
    refine ⟨(hitems.inside item hitem).1, ?_⟩
    intro htext
    have hnone : items = [] := by
      have hparts := hitems.parts
      rw [Event.attributeParts_of_text htext] at hparts
      exact List.map_eq_nil_iff.1 hparts
    rw [hnone] at hitem
    cases hitem
  · refine hitems.ordered.imp_of_mem ?_
    intro a b ha hb hle
    have hthis := hforward a (List.mem_cons_of_mem e ha)
    exact ⟨Nat.le_trans hthis hle, fun _ => hle⟩
  · intro f hf
    have hthis := hforward f hf
    rcases List.mem_cons.1 hf with rfl | hf
    · rw [hspan] at hthis ⊢
      exact ⟨Nat.le_refl _, hthis, Nat.le_refl _⟩
    · have hinside := hitems.inside f hf
      rw [hspan] at hinside
      exact ⟨hinside.1, hthis, hinside.2⟩

/-- The events from a cursor on are in order and lie behind the cursor. -/
theorem Cursor.StandsIn.events_precede {cursor : Cursor} {source : List Char}
    (hin : cursor.StandsIn source) {walk : Walk} (hwalk : walk.ReadsFrom source) :
    (walk.allEvents (cursor.steps.map (·.token))).Pairwise Event.Precedes
      ∧ ∀ e ∈ walk.allEvents (cursor.steps.map (·.token)),
          cursor.offset ≤ e.span.start ∧ e.span.start ≤ e.span.stop
            ∧ e.span.stop ≤ Text.byteLength source := by
  induction cursor using Cursor.induction generalizing walk with
  | finished cursor hnone =>
    rw [Cursor.steps_of_none hnone]
    exact ⟨.nil, nofun⟩
  | step cursor step hsome ih =>
    rcases ih (hin.next hsome) (hwalk.after step.token) with ⟨hordered, hbehind⟩
    rcases hin.covers hsome with ⟨before, hcovers⟩
    rcases Walk.events_precede hcovers (hwalk.location_reach hcovers)
      (Cursor.next?_laidOut hsome) with ⟨htoken, hinside⟩
    rcases Cursor.next?_span hsome with ⟨hspan, hnext⟩
    have hstart : step.token.span.start = cursor.offset := by
      rw [hspan]
      rfl
    rw [Cursor.steps_of_some hsome, List.map_cons, Walk.allEvents_cons]
    refine ⟨List.pairwise_append.2 ⟨htoken, hordered, ?_⟩, ?_⟩
    · intro a ha b hb
      have ha := hinside a ha
      have hb := hbehind b hb
      rw [hnext] at hb
      exact ⟨by omega, fun _ => by omega⟩
    · intro e he
      rcases List.mem_append.1 he with he | he
      · have he := hinside e he
        have hends := hcovers.stop_le
        omega
      · have he := hbehind e he
        rw [hnext] at he
        have hforward := hcovers.boundaries.1
        omega

theorem pairwise_events (source : List Char) : (events source).Pairwise Event.Precedes := by
  rcases (Cursor.atStart_standsIn source).events_precede (Walk.atStart_readsFrom source) with
    ⟨hordered, hinside⟩
  refine List.pairwise_cons.2
    ⟨?_, List.pairwise_append.2 ⟨hordered, List.pairwise_singleton _ _, ?_⟩⟩
  · intro e _
    exact ⟨Nat.zero_le _, nofun⟩
  · intro e he last hlast
    obtain rfl := List.mem_singleton.1 hlast
    rcases hinside e he with ⟨-, hforward, hstop⟩
    exact ⟨Nat.le_trans hforward hstop, fun _ => hstop⟩

namespace Registry

/-- The listeners of the library's rules that run, in order of subscription. -/
theorem pairs_builtin_sublist (rules : RuleSet) :
    (builtin.start rules).subscriptions.pairs.Sublist (builtinRules.flatMap Rule.subscribed) := by
  rw [(builtin.start_holds rules).pairs]
  exact List.Sublist.flatMap (List.filter_sublist.trans List.filter_sublist) Rule.subscribed

/-- The rule against mixed indentation listens to texts only, and subscribes last. -/
theorem subscribed_spaceTabMixed :
    (∀ p ∈ builtinRules.flatMap Rule.subscribed,
        p.2.rule = Rule.spaceTabMixed.id → p.1 = .kind .text)
      ∧ (builtinRules.flatMap Rule.subscribed).Pairwise
        fun p _ => p.2.rule ≠ Rule.spaceTabMixed.id := by
  decide

variable {rules : RuleSet} {e : Event}

theorem kind_of_called {label : Handle}
    (h : label ∈ (builtin.start rules).subscriptions.called e)
    (hlabel : label.rule = Rule.spaceTabMixed.id) : e.kind = .text := by
  rw [Subscriptions.called_eq, List.mem_flatMap] at h
  rcases h with ⟨target, htarget, h⟩
  rcases List.mem_map.1 h with ⟨p, hp, rfl⟩
  rcases List.mem_filter.1 hp with ⟨hp, hsame⟩
  have htext := subscribed_spaceTabMixed.1 p ((pairs_builtin_sublist rules).subset hp) hlabel
  rw [htext, decide_eq_true_eq] at hsame
  rw [← hsame, Event.targets] at htarget
  rcases List.mem_cons.1 htarget with hkind | htag
  · exact (Target.kind.inj hkind).symm
  · split at htag
    · cases List.mem_singleton.1 htag
    · cases htag

/-- After a listener of the rule against mixed indentation no other is called for the event. -/
theorem pairwise_called (rules : RuleSet) (e : Event) :
    ((builtin.start rules).subscriptions.called e).Pairwise
      fun label _ => label.rule ≠ Rule.spaceTabMixed.id := by
  by_cases hkind : e.kind = .text
  · have htargets : e.targets = [.kind .text] := by
      rcases e with ⟨detail, raw, span, location, depth⟩
      cases detail with
      | text => rfl
      | _ => cases hkind
    rw [Subscriptions.called_eq, htargets, List.flatMap_singleton, List.pairwise_map]
    exact subscribed_spaceTabMixed.2.sublist
      (List.filter_sublist.trans (pairs_builtin_sublist rules))
  · refine List.pairwise_of_forall_mem_list ?_
    intro label hlabel _ _ hsame
    exact hkind (kind_of_called hlabel hsame)

/-- What a call finds is not about anything after the event of a later call. -/
theorem pairwise_calls (rules : RuleSet) (document : List Char) :
    ((builtin.start rules).subscriptions.calls document).Pairwise
      fun a b => a.event.reach a.label.rule ≤ b.event.span.start := by
  refine List.pairwise_flatMap.2 ⟨?_, ?_⟩
  · intro e _
    rw [List.pairwise_map]
    refine (pairwise_called rules e).imp ?_
    intro label _ hlabel
    rw [Event.reach, if_neg hlabel]
  · refine (pairwise_events document).imp ?_
    rintro a b ⟨hstart, htext⟩ call hcall call' hcall'
    rcases List.mem_map.1 hcall with ⟨label, hlabel, rfl⟩
    rcases List.mem_map.1 hcall' with ⟨label', -, rfl⟩
    dsimp only [Event.reach]
    split
    · next hsame => exact htext (kind_of_called hlabel hsame)
    · exact hstart

end Registry

/-! ## Passes in order -/

/-- The pass is one of the library's rules. What it has reported is in order and not about anything
after `n`. -/
structure Pass.InOrder (document : List Char) (pass : Pass) (n : Nat) : Prop where
  rules : ∀ session ∈ pass.sessions, session.rule ∈ Registry.builtinRules
  distinct : (pass.sessions.map (·.rule.id)).Nodup
  ordered : pass.diagnostics.toList.Pairwise (Diagnostic.Before document)
  about : ∀ d ∈ pass.diagnostics.toList, ∃ p, d.About document p ∧ p ≤ n

/-- What a session answers is about places in the event, in order. -/
theorem Session.about_of_answer {session : Session}
    (hrule : session.rule ∈ Registry.builtinRules) {document : List Char} {call : Call Handle}
    (hcall : call.event.Located document) :
    (((session.answer call).2.map (·.diagnose (sourceLines document) call.label.rule)).Pairwise
        (Diagnostic.Before document))
      ∧ ∀ d ∈ (session.answer call).2.map (·.diagnose (sourceLines document) call.label.rule),
          ∃ p, d.About document p ∧ call.event.span.start ≤ p
            ∧ p ≤ call.event.reach call.label.rule := by
  unfold Session.answer
  split
  · next hname =>
    rw [← hname, Session.react]
    split
    · next l hl => exact Rule.about_of_react hrule (List.mem_of_getElem? hl) hcall session.state
    · exact ⟨.nil, List.forall_mem_nil _⟩
  · exact ⟨.nil, List.forall_mem_nil _⟩

namespace Pass.InOrder

variable {document : List Char} {pass : Pass} {n : Nat}

/-- One session at most answers a call. -/
theorem filter_sessions (h : pass.InOrder document n) (id : String) :
    pass.sessions.filter (·.rule.id = id) = []
      ∨ ∃ session ∈ pass.sessions, pass.sessions.filter (·.rule.id = id) = [session] := by
  have hdistinct : ((pass.sessions.filter (·.rule.id = id)).map (·.rule.id)).Nodup :=
    h.distinct.sublist (List.filter_sublist.map _)
  have hsame : ∀ session ∈ pass.sessions.filter (·.rule.id = id), session.rule.id = id := by
    intro session hsession
    simpa using (List.mem_filter.1 hsession).2
  rcases hfilter : pass.sessions.filter (·.rule.id = id) with _ | ⟨session, _ | ⟨other, others⟩⟩
  · exact .inl hfilter
  · refine .inr ⟨session, ?_, hfilter⟩
    have hmem : session ∈ pass.sessions.filter (·.rule.id = id) := by simp [hfilter]
    exact (List.mem_filter.1 hmem).1
  · rw [hfilter] at hdistinct hsame
    have htwice : session.rule.id = other.rule.id :=
      (hsame session (by simp)).trans (hsame other (by simp)).symm
    simp [htwice] at hdistinct

/-- What is new after a call was found by one session. -/
theorem exists_new (h : pass.InOrder document n) {call : Call Handle}
    (hcall : call.event.Located document) :
    ∃ new : List Diagnostic,
      (pass.answer (sourceLines document) call).diagnostics.toList = pass.diagnostics.toList ++ new
        ∧ new.Pairwise (Diagnostic.Before document)
        ∧ ∀ d ∈ new, ∃ p, d.About document p ∧ call.event.span.start ≤ p
          ∧ p ≤ call.event.reach call.label.rule := by
  refine ⟨(pass.sessions.flatMap fun session => (session.answer call).2).map
    (·.diagnose (sourceLines document) call.label.rule), ?_, ?_⟩
  · simp [Pass.answer, List.flatMap_map]
  · rw [Pass.flatMap_answer]
    rcases h.filter_sessions call.label.rule with hnone | ⟨session, hsession, hsole⟩
    · rw [hnone]
      exact ⟨.nil, List.forall_mem_nil _⟩
    · rw [hsole, List.flatMap_singleton]
      exact Session.about_of_answer (h.rules session hsession) hcall

/-- The answers to a call about a later place keep the order. -/
theorem answer (h : pass.InOrder document n) {call : Call Handle}
    (hcall : call.event.Located document) (hn : n ≤ call.event.span.start) :
    (pass.answer (sourceLines document) call).InOrder document
      (call.event.reach call.label.rule) := by
  have hreach : call.event.span.start ≤ call.event.reach call.label.rule := by
    rcases hcall with ⟨before, hcovers, -⟩
    unfold Event.reach
    split
    · exact hcovers.boundaries.1
    · exact Nat.le_refl _
  rcases h.exists_new hcall with ⟨new, hnew, hordered, habout⟩
  refine ⟨?_, ?_, ?_, ?_⟩
  · intro session hsession
    simp only [Pass.answer, List.map_map, List.mem_map] at hsession
    rcases hsession with ⟨earlier, hearlier, rfl⟩
    rw [Function.comp_apply, Session.answer_rule]
    exact h.rules earlier hearlier
  · rw [Pass.answer_ids]
    exact h.distinct
  · rw [hnew]
    refine List.pairwise_append.2 ⟨h.ordered, hordered, ?_⟩
    intro d hd d' hd'
    rcases h.about d hd with ⟨p, hp, hle⟩
    rcases habout d' hd' with ⟨q, hq, hfrom, -⟩
    exact ⟨p, q, hp, hq, by omega⟩
  · rw [hnew]
    intro d hd
    rcases List.mem_append.1 hd with hd | hd
    · rcases h.about d hd with ⟨p, hp, hle⟩
      exact ⟨p, hp, by omega⟩
    · rcases habout d hd with ⟨p, hp, -, hle⟩
      exact ⟨p, hp, hle⟩

/-- So do the answers to calls that come in the order of their places. -/
theorem foldl (h : pass.InOrder document n) {calls : List (Call Handle)}
    (hcalls : ∀ call ∈ calls, call.event.Located document ∧ n ≤ call.event.span.start)
    (hordered : calls.Pairwise fun a b => a.event.reach a.label.rule ≤ b.event.span.start) :
    ∃ m, (calls.foldl (Pass.answer (sourceLines document)) pass).InOrder document m := by
  induction calls generalizing pass n with
  | nil => exact ⟨n, h⟩
  | cons call calls ih =>
    rcases List.pairwise_cons.1 hordered with ⟨hlater, hordered⟩
    rcases hcalls call List.mem_cons_self with ⟨hcall, hn⟩
    refine ih (h.answer hcall hn) ?_ hordered
    intro other hother
    exact ⟨(hcalls other (List.mem_cons_of_mem call hother)).1, hlater other hother⟩

end Pass.InOrder

/-! ## Reports in order -/

namespace Registry

/-- The diagnostics of the library's rules are about places of the document, in order. -/
theorem lint_inOrder (rules : RuleSet) (document : List Char) :
    (builtin.lint rules document).diagnostics.Pairwise (Diagnostic.Before document)
      ∧ ∀ d ∈ (builtin.lint rules document).diagnostics, ∃ p, d.About document p := by
  have hsetup := builtin.start_holds (settleRules rules document)
  have hfirst : Pass.InOrder document
      ⟨(builtin.start (settleRules rules document)).sessions, #[]⟩ 0 := by
    refine ⟨?_, ?_, .nil, nofun⟩
    · intro session hsession
      rw [hsetup.sessions] at hsession
      rcases List.mem_map.1 hsession with ⟨rule, hrule, rfl⟩
      exact (mem_started.1 hrule).1
    · have hids := builtin.nodup_ids_started (settleRules rules document)
      rw [hsetup.sessions, List.map_map]
      exact hids
  have hcalls : ∀ call ∈ (builtin.start (settleRules rules document)).subscriptions.calls document,
      call.event.Located document ∧ 0 ≤ call.event.span.start := by
    intro call hcall
    rcases List.mem_flatMap.1 hcall with ⟨e, he, hcall⟩
    rcases List.mem_map.1 hcall with ⟨label, -, rfl⟩
    exact ⟨(events_grouped document).1.located e he, Nat.zero_le _⟩
  rcases hfirst.foldl hcalls (pairwise_calls _ document) with ⟨n, hlast⟩
  dsimp only [lint]
  refine ⟨hlast.ordered, ?_⟩
  intro d hd
  rcases hlast.about d hd with ⟨p, hp, -⟩
  exact ⟨p, hp⟩

end Registry

/-- The line of an offset is one of the document's. -/
theorem lineOf_le (document : List Char) (offset : Nat) :
    1 ≤ lineOf document offset ∧ lineOf document offset ≤ 1 + document.count '\n' := by
  have hprefix : Text.takeBytes offset document <+: document :=
    ⟨_, Text.takeBytes_append_dropBytes offset document⟩
  have hcount := hprefix.sublist.count_le '\n'
  rw [lineOf_eq]
  omega

/-- Every line that a document has is shown without its carriage return. -/
theorem exists_line_of_le {document : List Char} {n : Nat}
    (h : 1 ≤ n ∧ n ≤ 1 + document.count '\n') :
    ∃ line, (Text.splitOn '\n' document)[n - 1]? = some line
      ∧ lineAt (sourceLines document) n = withoutReturn line := by
  obtain ⟨k, rfl⟩ := Nat.exists_eq_add_of_le' h.1
  have hlength : k < (Text.splitOn '\n' document).length := by
    rw [Text.length_splitOn]
    omega
  refine ⟨_, List.getElem?_eq_getElem hlength, ?_⟩
  simp [lineAt, sourceLines, List.getElem?_eq_getElem hlength]

namespace Registry

/-- A diagnostic names a line that the document has, and shows that line. Unless it is about mixed
indentation, it names the location of an offset of the document and quotes what stands there. -/
theorem lint_diagnostic_place (rules : RuleSet) (document : List Char) {d : Diagnostic}
    (hd : d ∈ (builtin.lint rules document).diagnostics) :
    (1 ≤ d.location.line ∧ d.location.line ≤ 1 + document.count '\n')
      ∧ (∃ line, (Text.splitOn '\n' document)[d.location.line - 1]? = some line
        ∧ d.evidence = withoutReturn line)
      ∧ (d.rule ≠ "space-tab-mixed-disabled" →
        ∃ o, Text.isBoundary document o = true
          ∧ d.location = Location.start.after (Text.takeBytes o document)
          ∧ d.raw <+: Text.dropBytes o document) := by
  rcases (lint_inOrder rules document).2 d hd with ⟨p, habout⟩
  have hline : 1 ≤ d.location.line ∧ d.location.line ≤ 1 + document.count '\n' := by
    rw [habout.line]
    exact lineOf_le document p
  refine ⟨hline, ?_, fun hrule => ⟨p, habout.boundary, habout.exact hrule⟩⟩
  rcases exists_line_of_le hline with ⟨line, hpiece, hshown⟩
  exact ⟨line, hpiece, habout.evidence.trans hshown⟩

/-- In `<a`, ` B='é'>` and a mixed line, with line feeds after carriage returns, the attribute is
reported at the second column of line two, and the line is shown without its carriage return. -/
theorem lint_place_second_line :
    ∃ d ∈ (builtin.lint .all "<a\r\n B='é'>\r\n \tx".toList).diagnostics,
      d.rule = "attr-lowercase" ∧ d.location = ⟨2, 2⟩
        ∧ (∃ line, (Text.splitOn '\n' "<a\r\n B='é'>\r\n \tx".toList)[1]? = some line
          ∧ " B='é'>".toList = withoutReturn line)
        ∧ ∃ o, Text.isBoundary "<a\r\n B='é'>\r\n \tx".toList o = true
          ∧ ⟨2, 2⟩ = Location.start.after (Text.takeBytes o "<a\r\n B='é'>\r\n \tx".toList)
          ∧ "B='é'".toList <+: Text.dropBytes o "<a\r\n B='é'>\r\n \tx".toList := by
  have hmem : ⟨"attr-lowercase", .error, "The attribute name of [ B ] must be in lowercase.",
      ⟨2, 2⟩, "B='é'".toList, " B='é'>".toList⟩
        ∈ (builtin.lint .all "<a\r\n B='é'>\r\n \tx".toList).diagnostics := by
    decide +kernel
  rcases lint_diagnostic_place .all _ hmem with ⟨-, hshown, hplace⟩
  exact ⟨_, hmem, rfl, rfl, hshown, hplace (by decide)⟩

/-- Diagnostics come in the order of their lines; those that are not about mixed indentation come in
the order of their locations. -/
theorem lint_diagnostics_ordered (rules : RuleSet) (document : List Char) :
    ((builtin.lint rules document).diagnostics.map (·.location.line)).Pairwise (· ≤ ·)
      ∧ (((builtin.lint rules document).diagnostics.filter
          (·.rule ≠ "space-tab-mixed-disabled")).map (·.location)).Pairwise
        fun a b => a.line < b.line ∨ a.line = b.line ∧ a.column ≤ b.column := by
  have hordered := (lint_inOrder rules document).1
  refine ⟨?_, ?_⟩
  · rw [List.pairwise_map]
    refine hordered.imp ?_
    rintro d d' ⟨p, q, hp, hq, hle⟩
    rw [hp.line, hq.line]
    exact lineOf_le_lineOf document hle
  · rw [List.pairwise_map, List.pairwise_filter]
    refine hordered.imp ?_
    rintro d d' ⟨p, q, hp, hq, hle⟩ hd hd'
    rw [(hp.exact (of_decide_eq_true hd)).1, (hq.exact (of_decide_eq_true hd')).1]
    exact Location.after_takeBytes_le document hle

end Registry

end HtmlLint
