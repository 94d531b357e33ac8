import HtmlLint.Lint
import Mathlib.Data.List.Basic

/-!
# What a rule finds by itself

A pass over a document mixes the calls of all started rules. Seen from one rule, the pass is a walk
over the events: at each event the rule's own listeners for it react in order, on the rule's own
state (`Rule.hearAll`). `Registry.filter_lint_diagnostics` says that the diagnostics under the id of
a started rule are what it finds by itself, and `Registry.lint_rule_mem` that there are no others.

* `Setup.Holds` — which rules a setup has started.
* `Pass.Tracks` — where one rule stands in the middle of a pass.
* `Registry.passOver` — the pass over some events; a report is the pass over all of them.
-/

namespace HtmlLint

/-! ## A rule by itself -/

/-- The targets that an event is handed to, in order. -/
def Event.targets (e : Event) : List Target :=
  .kind e.kind ::
    match e.detail with
    | .tagStart name .. => [.tag name]
    | _ => []

/-- Lets listeners react to an event, one after the other. -/
def Listener.reactAll {σ : Type} (e : Event) : List (Listener σ) → σ → σ × List Finding
  | [], s => (s, [])
  | l :: listeners, s =>
    let first := l.react e s
    let others := reactAll e listeners first.1
    (others.1, first.2 ++ others.2)

theorem Listener.reactAll_append {σ : Type} (e : Event) (a b : List (Listener σ)) (s : σ) :
    reactAll e (a ++ b) s =
      ((reactAll e b (reactAll e a s).1).1,
        (reactAll e a s).2 ++ (reactAll e b (reactAll e a s).1).2) := by
  induction a generalizing s with
  | nil => rfl
  | cons l a ih => simp [reactAll, ih]

namespace Rule

/-- The listeners of the rule that an event is handed to. -/
def heard (rule : Rule) (e : Event) : List (Listener rule.State) :=
  e.targets.flatMap fun target => rule.listeners.filter (·.target.normal = target)

/-- The rule's state after some events, and what it has found in them. -/
def hearAll (rule : Rule) (s : rule.State) : List Event → rule.State × List Finding
  | [] => (s, [])
  | e :: list =>
    let first := Listener.reactAll e (rule.heard e) s
    let others := rule.hearAll first.1 list
    (others.1, first.2 ++ others.2)

theorem hearAll_append (rule : Rule) (s : rule.State) (a b : List Event) :
    rule.hearAll s (a ++ b) =
      ((rule.hearAll (rule.hearAll s a).1 b).1,
        (rule.hearAll s a).2 ++ (rule.hearAll (rule.hearAll s a).1 b).2) := by
  induction a generalizing s with
  | nil => rfl
  | cons e a ih => simp [hearAll, ih]

/-- What the rule finds in a document. -/
def findings (rule : Rule) (document : List Char) : List Finding :=
  (rule.hearAll rule.initial (events document)).2

end Rule

/-! ## Subscriptions of started rules -/

namespace Subscriptions

variable {α : Type}

/-- The targets and labels, without the numbers. -/
def pairs (subs : Subscriptions α) : List (Target × α) :=
  subs.entries.map fun s => (s.target, s.label)

/-- The numbers given so far lie below the next one. -/
def Numbered (subs : Subscriptions α) : Prop :=
  ∀ s ∈ subs.entries, s.number < subs.next

/-- Subscribing adds entries with new numbers behind the ones that are there. -/
theorem subscribeAll_entries (subs : Subscriptions α) (listeners : List (Target × α)) :
    ∃ added, (subs.subscribeAll listeners).entries = subs.entries ++ added
      ∧ added.map (fun s => (s.target, s.label)) = listeners.map (fun p => (p.1.normal, p.2))
      ∧ subs.next ≤ (subs.subscribeAll listeners).next
      ∧ ∀ s ∈ added, subs.next ≤ s.number ∧ s.number < (subs.subscribeAll listeners).next := by
  induction listeners generalizing subs with
  | nil => exact ⟨[], by simp [subscribeAll], rfl, Nat.le_refl _, by simp⟩
  | cons p listeners ih =>
    rcases ih (subs.subscribe p.1 p.2) with ⟨added, hentries, hpairs, hnext, hnumbers⟩
    have hfold : subs.subscribeAll (p :: listeners)
        = (subs.subscribe p.1 p.2).subscribeAll listeners := rfl
    rw [hfold]
    refine ⟨⟨subs.next, p.1.normal, p.2⟩ :: added, ?_, ?_, ?_, ?_⟩
    · rw [hentries]
      simp [subscribe]
    · simp [hpairs]
    · exact Nat.le_trans (Nat.le_succ _) hnext
    · intro s hs
      rcases List.mem_cons.1 hs with rfl | hs
      · exact ⟨Nat.le_refl _, hnext⟩
      · exact ⟨Nat.le_trans (Nat.le_succ _) (hnumbers s hs).1, (hnumbers s hs).2⟩

variable {subs : Subscriptions α}

theorem Numbered.subscribeAll (h : subs.Numbered) (listeners : List (Target × α)) :
    (subs.subscribeAll listeners).Numbered := by
  rcases subs.subscribeAll_entries listeners with ⟨added, hentries, -, hnext, hnumbers⟩
  intro s hs
  rw [hentries] at hs
  rcases List.mem_append.1 hs with hs | hs
  · exact Nat.lt_of_lt_of_le (h s hs) hnext
  · exact (hnumbers s hs).2

/-- Rolling back to a mark undoes what was subscribed since. -/
theorem Numbered.rollback_entries (h : subs.Numbered) (listeners : List (Target × α)) :
    ((subs.subscribeAll listeners).rollback subs.mark).entries = subs.entries := by
  rcases subs.subscribeAll_entries listeners with ⟨added, hentries, -, -, hnumbers⟩
  have hkept : subs.entries.filter (·.number < subs.mark) = subs.entries := by
    rw [List.filter_eq_self]
    intro s hs
    exact decide_eq_true (h s hs)
  have hdropped : added.filter (·.number < subs.mark) = [] := by
    rw [List.filter_eq_nil_iff]
    intro s hs
    have hnew : ¬ s.number < subs.mark := Nat.not_lt.2 (hnumbers s hs).1
    simpa using hnew
  simp [rollback, hentries, List.filter_append, hkept, hdropped]

theorem Numbered.rollback (h : subs.Numbered) (listeners : List (Target × α)) :
    ((subs.subscribeAll listeners).rollback subs.mark).Numbered := by
  intro s hs
  exact h.subscribeAll listeners s (List.mem_filter.1 hs).1

/-- The listeners of an event depend on the targets and labels alone. -/
theorem called_eq (subs : Subscriptions α) (e : Event) :
    subs.called e = e.targets.flatMap fun target =>
      (subs.pairs.filter (·.1 = target)).map (·.2) := by
  have hlisteners : ∀ target, subs.listeners target
      = (subs.pairs.filter (·.1 = target)).map (·.2) := by
    intro target
    simp [listeners, pairs, List.filter_map, Function.comp_def]
  cases hdetail : e.detail <;> simp [called, Event.targets, hdetail, hlisteners]

end Subscriptions

/-! ## Started rules -/

/-- The targets of a rule's listeners as they are subscribed. -/
def Rule.subscribed (rule : Rule) : List (Target × Handle) :=
  rule.handles.map fun p => (p.1.normal, p.2)

/-- Exactly these rules have been started, in this order. -/
structure Setup.Holds (setup : Setup) (started : List Rule) : Prop where
  numbered : setup.subscriptions.Numbered
  pairs : setup.subscriptions.pairs = started.flatMap Rule.subscribed
  sessions : setup.sessions = started.map Session.start

/-- The rules that run: the enabled ones that do not refuse. -/
def Registry.started (registry : Registry) (rules : RuleSet) : List Rule :=
  (registry.rules.filter (rules.isEnabled ·.id)).filter (·.refusal.isNone)

namespace Setup

theorem empty_holds : empty.Holds [] := by
  refine ⟨?_, rfl, rfl⟩
  intro s hs
  cases hs

/-- A rule that refuses leaves no listener behind. -/
theorem Holds.start {setup : Setup} {started : List Rule} (h : setup.Holds started) (rule : Rule) :
    (setup.start rule).Holds (started ++ [rule].filter (·.refusal.isNone)) := by
  rcases setup.subscriptions.subscribeAll_entries rule.handles with ⟨added, hentries, hadded, -, -⟩
  cases hrefusal : rule.refusal with
  | none =>
    have hpairs : (setup.subscriptions.subscribeAll rule.handles).pairs
        = started.flatMap Rule.subscribed ++ rule.subscribed := by
      rw [← h.pairs]
      simp [Subscriptions.pairs, hentries, hadded, Rule.subscribed]
    refine ⟨?_, ?_, ?_⟩
    · simpa [Setup.start, hrefusal] using h.numbered.subscribeAll rule.handles
    · simpa [Setup.start, hrefusal] using hpairs
    · simp [Setup.start, hrefusal, h.sessions]
  | some reason =>
    -- the mark was taken before the rule subscribed, so exactly its entries are dropped
    have hback := h.numbered.rollback_entries rule.handles
    refine ⟨?_, ?_, ?_⟩
    · simpa [Setup.start, hrefusal] using h.numbered.rollback rule.handles
    · simpa [Setup.start, hrefusal, Subscriptions.pairs, hback] using h.pairs
    · simpa [Setup.start, hrefusal] using h.sessions

theorem Holds.foldl_start {setup : Setup} {started : List Rule} (h : setup.Holds started)
    (rules : List Rule) :
    (rules.foldl Setup.start setup).Holds (started ++ rules.filter (·.refusal.isNone)) := by
  induction rules generalizing setup started with
  | nil => simpa using h
  | cons rule rules ih =>
    have hnext := ih (h.start rule)
    rw [List.append_assoc, ← List.filter_append] at hnext
    exact hnext

end Setup

theorem Registry.start_holds (registry : Registry) (rules : RuleSet) :
    (registry.start rules).Holds (registry.started rules) :=
  Setup.empty_holds.foldl_start _

namespace Registry

variable {registry : Registry} {rules : RuleSet} {rule : Rule}

theorem mem_started :
    rule ∈ registry.started rules ↔
      rule ∈ registry.rules ∧ rules.isEnabled rule.id = true ∧ rule.refusal = none := by
  simp [started, and_comm]

/-- Among the started rules there is one for each id. -/
theorem nodup_ids_started (registry : Registry) (rules : RuleSet) :
    ((registry.started rules).map (·.id)).Nodup := by
  refine registry.distinct.sublist ?_
  apply List.Sublist.map
  exact List.filter_sublist.trans List.filter_sublist

end Registry

/-- In a list of rules with distinct ids a member is the only one with its id. -/
theorem Rule.exists_split {rules : List Rule} {rule : Rule} (hmem : rule ∈ rules)
    (hdistinct : (rules.map (·.id)).Nodup) :
    ∃ before behind, rules = before ++ rule :: behind
      ∧ (∀ other ∈ before, other.id ≠ rule.id) ∧ ∀ other ∈ behind, other.id ≠ rule.id := by
  rcases List.append_of_mem hmem with ⟨before, behind, rfl⟩
  refine ⟨before, behind, rfl, ?_, ?_⟩
  · intro other hother hsame
    have hids := (List.nodup_append.1 (by simpa using hdistinct)).2.2
    exact hids other.id (List.mem_map_of_mem hother) rule.id (by simp) hsame
  · intro other hother hsame
    have hids := (List.nodup_append.1 (by simpa using hdistinct)).2.1
    exact (List.nodup_cons.1 hids).1 (hsame ▸ List.mem_map_of_mem hother)

/-! ## The calls for one rule -/

namespace Rule

/-- The listeners of the rule that labels name. -/
def named (rule : Rule) (labels : List Handle) : List (Listener rule.State) :=
  (labels.filter (·.rule = rule.id)).filterMap fun label => rule.listeners[label.listener]?

theorem named_append (rule : Rule) (a b : List Handle) :
    rule.named (a ++ b) = rule.named a ++ rule.named b := by
  simp [named]

theorem rule_of_mem_subscribed {rule : Rule} {p : Target × Handle} (h : p ∈ rule.subscribed) :
    p.2.rule = rule.id := by
  simp only [subscribed, handles, List.map_map, List.mem_map] at h
  rcases h with ⟨q, -, rfl⟩
  rfl

/-- Labels of other rules name none of the rule's listeners. -/
theorem named_of_others {rule : Rule} {others : List Rule}
    (h : ∀ other ∈ others, other.id ≠ rule.id) (target : Target) :
    rule.named (((others.flatMap subscribed).filter (·.1 = target)).map (·.2)) = [] := by
  have hnone : (((others.flatMap subscribed).filter (·.1 = target)).map (·.2)).filter
      (·.rule = rule.id) = [] := by
    rw [List.filter_eq_nil_iff]
    intro label hlabel
    rcases List.mem_map.1 hlabel with ⟨p, hp, rfl⟩
    rcases List.mem_flatMap.1 (List.mem_filter.1 hp).1 with ⟨other, hother, hp⟩
    simpa [rule_of_mem_subscribed hp] using h other hother
  simp [named, hnone]

/-- The rule's own labels name its listeners in order. -/
theorem named_subscribed (rule : Rule) (target : Target) :
    rule.named ((rule.subscribed.filter (·.1 = target)).map (·.2))
      = rule.listeners.filter (·.target.normal = target) := by
  -- a label is made from a listener's place, and looking it up gives the listener back
  have hplaces : ∀ p ∈ rule.listeners.zipIdx.filter (·.1.target.normal = target),
      rule.listeners[p.2]? = some p.1 := by
    intro p hp
    exact List.mk_mem_zipIdx_iff_getElem?.1 (List.mem_filter.1 hp).1
  calc
    rule.named ((rule.subscribed.filter (·.1 = target)).map (·.2))
        = (rule.listeners.zipIdx.filter (·.1.target.normal = target)).filterMap
            (fun p => rule.listeners[p.2]?) := by
          simp [named, subscribed, handles, List.filter_map, List.filterMap_map, Function.comp_def]
    _ = (rule.listeners.zipIdx.filter (·.1.target.normal = target)).map (·.1) := by
          rw [List.filterMap_congr hplaces]
          simp
    _ = (rule.listeners.zipIdx.map (·.1)).filter (·.target.normal = target) := by
          rw [List.filter_map]
          rfl
    _ = rule.listeners.filter (·.target.normal = target) := by
          rw [List.zipIdx_map_fst]

end Rule

/-- Of the listeners called for an event, those of a started rule are the ones it has for it. -/
theorem Setup.Holds.named_called {setup : Setup} {started : List Rule} (h : setup.Holds started)
    {rule : Rule} (hmem : rule ∈ started) (hdistinct : (started.map (·.id)).Nodup) (e : Event) :
    rule.named (setup.subscriptions.called e) = rule.heard e := by
  rcases Rule.exists_split hmem hdistinct with ⟨before, behind, rfl, hbefore, hbehind⟩
  have htarget : ∀ target, rule.named ((setup.subscriptions.pairs.filter (·.1 = target)).map (·.2))
      = rule.listeners.filter (·.target.normal = target) := by
    intro target
    simp [h.pairs, Rule.named_append, Rule.named_of_others hbefore, Rule.named_of_others hbehind,
      Rule.named_subscribed]
  rw [Subscriptions.called_eq, Rule.heard]
  induction e.targets with
  | nil => rfl
  | cons target targets ih =>
    simp only [List.flatMap_cons, Rule.named_append, htarget, ih]

/-! ## One rule in a pass -/

/-- The call is answered by the rule it names only, which stays the same rule. -/
theorem Session.answer_rule (session : Session) (call : Call Handle) :
    (session.answer call).1.rule = session.rule := by
  unfold Session.answer Session.react
  split
  · split <;> rfl
  · rfl

theorem Session.answer_of_ne {session : Session} {call : Call Handle}
    (h : session.rule.id ≠ call.label.rule) : session.answer call = (session, []) := by
  simp [Session.answer, h]

/-- In the pass, the rule is in this state and has found this so far. -/
structure Pass.Tracks (lines : List (List Char)) (rule : Rule) (pass : Pass) (state : rule.State)
    (found : List Finding) : Prop where
  session : pass.sessions.filter (·.rule.id = rule.id) = [⟨rule, state⟩]
  diagnostics : pass.diagnostics.toList.filter (·.rule = rule.id)
    = found.map (·.diagnose lines rule.id)

namespace Pass

variable {lines : List (List Char)} {rule : Rule} {pass : Pass} {state : rule.State}
  {found : List Finding}

/-- The sessions after a call. -/
theorem filter_answer_sessions (lines : List (List Char)) (pass : Pass) (call : Call Handle)
    (id : String) :
    (pass.answer lines call).sessions.filter (·.rule.id = id)
      = (pass.sessions.filter (·.rule.id = id)).map fun session => (session.answer call).1 := by
  simp [Pass.answer, List.filter_map, Function.comp_def, Session.answer_rule]

/-- What a call finds, found by the sessions of the rule it names. -/
theorem flatMap_answer (sessions : List Session) (call : Call Handle) :
    sessions.flatMap (fun session => (session.answer call).2)
      = (sessions.filter (·.rule.id = call.label.rule)).flatMap
          fun session => (session.answer call).2 := by
  induction sessions with
  | nil => rfl
  | cons session sessions ih =>
    by_cases hname : session.rule.id = call.label.rule
    · simp [hname, ih]
    · simp [hname, ih, Session.answer_of_ne hname]

/-- A call for another rule changes nothing for the rule. -/
theorem Tracks.answer_of_ne (h : pass.Tracks lines rule state found) {call : Call Handle}
    (hname : call.label.rule ≠ rule.id) :
    (pass.answer lines call).Tracks lines rule state found := by
  have hsession : Session.answer ⟨rule, state⟩ call = (⟨rule, state⟩, []) :=
    Session.answer_of_ne (Ne.symm hname)
  refine ⟨?_, ?_⟩
  · rw [filter_answer_sessions, h.session]
    simp [hsession]
  · have hnone : ((pass.sessions.flatMap fun session => (session.answer call).2).map
        (·.diagnose lines call.label.rule)).filter (·.rule = rule.id) = [] := by
      simp [List.filter_map, Function.comp_def, Finding.diagnose, hname]
    simpa [Pass.answer, List.flatMap_map, hnone] using h.diagnostics

/-- A call for the rule is answered on its state. -/
theorem Tracks.answer (h : pass.Tracks lines rule state found) {call : Call Handle}
    (hname : call.label.rule = rule.id) :
    (pass.answer lines call).Tracks lines rule
      (Listener.reactAll call.event (rule.named [call.label]) state).1
      (found ++ (Listener.reactAll call.event (rule.named [call.label]) state).2) := by
  have hsession : Session.answer ⟨rule, state⟩ call
      = (⟨rule, (Listener.reactAll call.event (rule.named [call.label]) state).1⟩,
          (Listener.reactAll call.event (rule.named [call.label]) state).2) := by
    cases hplace : rule.listeners[call.label.listener]? <;>
      simp [Session.answer, Session.react, Rule.named, Listener.reactAll, hname, hplace]
  refine ⟨?_, ?_⟩
  · rw [filter_answer_sessions, h.session]
    simp [hsession]
  · -- the rule's session is the only one with its id, so it has found all there is
    have hfound : pass.sessions.flatMap (fun session => (session.answer call).2)
        = (Listener.reactAll call.event (rule.named [call.label]) state).2 := by
      rw [flatMap_answer, hname, h.session]
      simp [hsession]
    simp [Pass.answer, List.flatMap_map, hfound, h.diagnostics, List.filter_map, Function.comp_def,
      Finding.diagnose, hname]

/-- The calls for one event, answered in order. -/
theorem Tracks.foldl_labels (h : pass.Tracks lines rule state found) (e : Event)
    (labels : List Handle) :
    ((labels.map fun label => ⟨label, e⟩).foldl (Pass.answer lines) pass).Tracks lines rule
      (Listener.reactAll e (rule.named labels) state).1
      (found ++ (Listener.reactAll e (rule.named labels) state).2) := by
  induction labels generalizing pass state found with
  | nil => simpa [Rule.named, Listener.reactAll] using h
  | cons label labels ih =>
    by_cases hname : label.rule = rule.id
    · have hsplit : rule.named (label :: labels) = rule.named [label] ++ rule.named labels :=
        rule.named_append [label] labels
      have hcall : (⟨label, e⟩ : Call Handle).label.rule = rule.id := hname
      have hnext := ih (h.answer hcall)
      rw [hsplit, Listener.reactAll_append, ← List.append_assoc]
      exact hnext
    · have hsplit : rule.named (label :: labels) = rule.named labels := by
        simp [Rule.named, hname]
      rw [hsplit]
      exact ih (h.answer_of_ne hname)

/-- Over any events, the rule does in the pass what it does by itself. -/
theorem Tracks.foldl_events (h : pass.Tracks lines rule state found) {setup : Setup}
    {started : List Rule} (hsetup : setup.Holds started) (hmem : rule ∈ started)
    (hdistinct : (started.map (·.id)).Nodup) (list : List Event) :
    ((list.flatMap fun e => (setup.subscriptions.called e).map fun label => ⟨label, e⟩).foldl
        (Pass.answer lines) pass).Tracks lines rule
      (rule.hearAll state list).1 (found ++ (rule.hearAll state list).2) := by
  induction list generalizing pass state found with
  | nil => simpa [Rule.hearAll] using h
  | cons e list ih =>
    have hevent := h.foldl_labels e (setup.subscriptions.called e)
    rw [hsetup.named_called hmem hdistinct] at hevent
    rw [List.flatMap_cons, List.foldl_append, Rule.hearAll, ← List.append_assoc]
    exact ih hevent

/-- Calls add to the diagnostics and take none away. -/
theorem exists_foldl_diagnostics (lines : List (List Char)) (calls : List (Call Handle))
    (pass : Pass) :
    ∃ added, (calls.foldl (Pass.answer lines) pass).diagnostics.toList
      = pass.diagnostics.toList ++ added := by
  induction calls generalizing pass with
  | nil => exact ⟨[], by simp⟩
  | cons call calls ih =>
    rcases ih (pass.answer lines call) with ⟨added, hadded⟩
    rw [List.foldl_cons, hadded]
    simp only [Pass.answer, Array.toList_appendList, List.append_assoc]
    exact ⟨_, rfl⟩

/-- Every diagnostic so far is under the id of a rule in the pass. -/
def Attributed (pass : Pass) : Prop :=
  ∀ d ∈ pass.diagnostics.toList, d.rule ∈ pass.sessions.map (·.rule.id)

theorem answer_ids (lines : List (List Char)) (pass : Pass) (call : Call Handle) :
    (pass.answer lines call).sessions.map (·.rule.id) = pass.sessions.map (·.rule.id) := by
  simp [Pass.answer, Function.comp_def, Session.answer_rule]

theorem Attributed.answer (h : pass.Attributed) (lines : List (List Char)) (call : Call Handle) :
    (pass.answer lines call).Attributed := by
  intro d hd
  rw [answer_ids]
  simp only [Pass.answer, Array.toList_appendList, List.mem_append, List.mem_map,
    List.mem_flatMap] at hd
  rcases hd with hd | ⟨f, ⟨answer, ⟨session, hsession, rfl⟩, hf⟩, rfl⟩
  · exact h d hd
  · -- something was found, so some session answered, and its rule is the one called
    by_cases hname : session.rule.id = call.label.rule
    · exact List.mem_map.2 ⟨session, hsession, hname⟩
    · rw [Session.answer_of_ne hname] at hf
      cases hf

theorem Attributed.foldl (h : pass.Attributed) (lines : List (List Char))
    (calls : List (Call Handle)) :
    (calls.foldl (Pass.answer lines) pass).Attributed
      ∧ (calls.foldl (Pass.answer lines) pass).sessions.map (·.rule.id)
        = pass.sessions.map (·.rule.id) := by
  induction calls generalizing pass with
  | nil => exact ⟨h, rfl⟩
  | cons call calls ih =>
    rcases ih (h.answer lines call) with ⟨hlater, hids⟩
    exact ⟨hlater, hids.trans (answer_ids lines pass call)⟩

end Pass

/-! ## Reports -/

namespace Registry

/-- Before the first call a rule that runs is in its initial state, and nothing is reported. -/
theorem start_tracks (registry : Registry) (rules : RuleSet) (document : List Char) {rule : Rule}
    (hrule : rule ∈ registry.started (settleRules rules document)) :
    Pass.Tracks (sourceLines document) rule
      ⟨(registry.start (settleRules rules document)).sessions, #[]⟩ rule.initial [] := by
  refine ⟨?_, rfl⟩
  have hsetup := registry.start_holds (settleRules rules document)
  have hdistinct := registry.nodup_ids_started (settleRules rules document)
  rcases Rule.exists_split hrule hdistinct with ⟨before, behind, hstarted, hbefore, hbehind⟩
  have hnone : ∀ others : List Rule, (∀ other ∈ others, other.id ≠ rule.id) →
      (others.map Session.start).filter (·.rule.id = rule.id) = [] := by
    intro others hothers
    rw [List.filter_eq_nil_iff]
    intro session hsession
    rcases List.mem_map.1 hsession with ⟨other, hother, rfl⟩
    have hother : ¬ (Session.start other).rule.id = rule.id := hothers other hother
    simpa using hother
  simp only [hsetup.sessions, hstarted, List.map_append, List.map_cons, List.filter_append,
    hnone before hbefore, List.nil_append]
  rw [List.filter_cons_of_pos (by simp [Session.start]), hnone behind hbehind]
  rfl

/-- The pass over some events, by the rules that run for a document. -/
def passOver (registry : Registry) (rules : RuleSet) (document : List Char) (list : List Event) :
    Pass :=
  let setup := registry.start (settleRules rules document)
  (list.flatMap fun e => (setup.subscriptions.called e).map fun label => ⟨label, e⟩).foldl
    (Pass.answer (sourceLines document)) ⟨setup.sessions, #[]⟩

/-- A report is what the pass over all events comes to. -/
theorem lint_diagnostics_eq_passOver (registry : Registry) (rules : RuleSet)
    (document : List Char) :
    (registry.lint rules document).diagnostics
      = (registry.passOver rules document (events document)).diagnostics.toList :=
  rfl

/-- After any events a rule stands where it stands by itself. -/
theorem passOver_tracks (registry : Registry) (rules : RuleSet) (document : List Char)
    {rule : Rule} (hrule : rule ∈ registry.started (settleRules rules document))
    (list : List Event) :
    (registry.passOver rules document list).Tracks (sourceLines document) rule
      (rule.hearAll rule.initial list).1 (rule.hearAll rule.initial list).2 :=
  (registry.start_tracks rules document hrule).foldl_events
    (registry.start_holds (settleRules rules document)) hrule
    (registry.nodup_ids_started (settleRules rules document)) list

/-- What further events add to the diagnostics, and which of it a rule has found. -/
theorem passOver_append (registry : Registry) (rules : RuleSet) (document : List Char)
    {rule : Rule} (hrule : rule ∈ registry.started (settleRules rules document))
    (a b : List Event) :
    ∃ added, (registry.passOver rules document (a ++ b)).diagnostics.toList
        = (registry.passOver rules document a).diagnostics.toList ++ added
      ∧ added.filter (·.rule = rule.id)
        = (rule.hearAll (rule.hearAll rule.initial a).1 b).2.map
            (·.diagnose (sourceLines document) rule.id) := by
  have hfirst := (registry.passOver_tracks rules document hrule a).diagnostics
  have hboth := (registry.passOver_tracks rules document hrule (a ++ b)).diagnostics
  rcases Pass.exists_foldl_diagnostics (sourceLines document)
    (b.flatMap fun e => ((registry.start (settleRules rules document)).subscriptions.called e).map
      fun label => ⟨label, e⟩) (registry.passOver rules document a) with ⟨added, hadded⟩
  have hsplit : (registry.passOver rules document (a ++ b)).diagnostics.toList
      = (registry.passOver rules document a).diagnostics.toList ++ added := by
    rw [← hadded]
    simp only [passOver, List.flatMap_append, List.foldl_append]
  refine ⟨added, hsplit, ?_⟩
  rw [hsplit, List.filter_append, hfirst, Rule.hearAll_append, List.map_append] at hboth
  exact List.append_cancel_left hboth

/-- The diagnostics under the id of a rule that runs are what the rule finds by itself. -/
theorem filter_lint_diagnostics (registry : Registry) (rules : RuleSet) (document : List Char)
    {rule : Rule} (hrule : rule ∈ registry.started (settleRules rules document)) :
    (registry.lint rules document).diagnostics.filter (·.rule = rule.id)
      = (rule.findings document).map (·.diagnose (sourceLines document) rule.id) := by
  rw [lint_diagnostics_eq_passOver]
  exact (registry.passOver_tracks rules document hrule (events document)).diagnostics

/-- Every diagnostic is under the id of a rule that runs. -/
theorem lint_rule_mem (registry : Registry) (rules : RuleSet) (document : List Char)
    {d : Diagnostic} (hd : d ∈ (registry.lint rules document).diagnostics) :
    d.rule ∈ (registry.started (settleRules rules document)).map (·.id) := by
  have hfirst : Pass.Attributed ⟨(registry.start (settleRules rules document)).sessions, #[]⟩ := by
    intro d hd
    simp at hd
  rcases hfirst.foldl (sourceLines document)
    ((registry.start (settleRules rules document)).subscriptions.calls document) with ⟨hall, hids⟩
  have hrule := hall d hd
  rw [hids, (registry.start_holds (settleRules rules document)).sessions] at hrule
  simpa [Session.start, Function.comp_def] using hrule

/-- Where a single rule runs, the diagnostics are what it finds. -/
theorem lint_diagnostics_of_sole (registry : Registry) (rules : RuleSet) (document : List Char)
    {rule : Rule} (hrule : rule ∈ registry.started (settleRules rules document))
    (hsole : ∀ other ∈ registry.started (settleRules rules document), other.id = rule.id) :
    (registry.lint rules document).diagnostics
      = (rule.findings document).map (·.diagnose (sourceLines document) rule.id) := by
  rw [← registry.filter_lint_diagnostics rules document hrule, eq_comm, List.filter_eq_self]
  intro d hd
  rcases List.mem_map.1 (registry.lint_rule_mem rules document hd) with ⟨other, hother, hid⟩
  simpa [← hid] using hsole other hother

/-- Where one id is switched on and the document says nothing, only the rule with this id is. -/
theorem isEnabled_iff_of_off_set (registry : Registry) (document : List Char) (id : String)
    (hsilent : settleRules (RuleSet.off.set id true) document = RuleSet.off.set id true) :
    ∀ rule ∈ registry.rules,
      (settleRules (RuleSet.off.set id true) document).isEnabled rule.id = true ↔ rule.id = id := by
  intro rule _
  rw [hsilent, RuleSet.isEnabled_set]
  simp [eq_comm]

/-- Where a single rule is switched on and does not refuse, the diagnostics are what it finds. -/
theorem lint_diagnostics_of_sole_id (registry : Registry) (rules : RuleSet) (document : List Char)
    {rule : Rule} (hknown : rule ∈ registry.rules) (hruns : rule.refusal = none)
    (hsole : ∀ other ∈ registry.rules,
      (settleRules rules document).isEnabled other.id = true ↔ other.id = rule.id) :
    (registry.lint rules document).diagnostics
      = (rule.findings document).map (·.diagnose (sourceLines document) rule.id) := by
  refine registry.lint_diagnostics_of_sole rules document
    (mem_started.2 ⟨hknown, (hsole _ hknown).2 rfl, hruns⟩) ?_
  intro other hother
  rcases mem_started.1 hother with ⟨hmem, henabled, -⟩
  exact (hsole other hmem).1 henabled

end Registry

end HtmlLint
