import HtmlLint.Event.Subscriptions
import HtmlLint.Proofs.EventPlaces
import Mathlib.Data.List.Induction

/-!
# Listeners over a history

Subscribing, taking marks, rolling back and reading documents may follow each other in any order,
and a mark may be used again after other rollbacks. Which listeners are left is decided by the order
of the actions alone: a listener is gone as soon as some later rollback goes to an earlier mark.
What a document left open is forgotten when the next one is read.

* `Usage` — a parser in use, with the marks handed out and the calls made so far.
* `survivors` — the listeners that are left, said by positions in the history.
* `Usage.Reflects` — the invariant: numbers count the subscriptions made before, so comparing
  numbers is comparing positions.

A rollback refers to the action that took its mark. Where that action took none, nothing happens.
-/

namespace HtmlLint

/-! ## Actions -/

/-- Something done with a parser. -/
inductive Action (α : Type) where
  | listen (target : Target) (label : α)
  | mark
  /-- Rolls back to the mark that was taken by the action at a position. -/
  | rollback (taken : Nat)
  | parse (source : List Char)

namespace Action

variable {α : Type}

def isListen : Action α → Bool
  | listen .. => true
  | _ => false

def isMark : Action α → Bool
  | mark => true
  | _ => false

end Action

/-- A parser in use. -/
structure Usage (α : Type) where
  parser : Parser α
  /-- For each action so far, the mark that it took. -/
  taken : List (Option Nat)
  /-- For each document so far, the calls made. -/
  made : List (List (Call α))

namespace Usage

variable {α : Type}

def fresh : Usage α :=
  ⟨.fresh, [], []⟩

def subscriptions (use : Usage α) : Subscriptions α :=
  use.parser.subscriptions

@[simp]
theorem subscriptions_mk (parser : Parser α) (taken : List (Option Nat))
    (made : List (List (Call α))) :
    (Usage.mk parser taken made).subscriptions = parser.subscriptions := rfl

def perform (use : Usage α) : Action α → Usage α
  | .listen target label =>
    { use with
      parser.subscriptions := use.subscriptions.subscribe target label
      taken := use.taken ++ [none] }
  | .mark => { use with taken := use.taken ++ [some use.subscriptions.mark] }
  | .rollback taken =>
    { use with
      parser.subscriptions :=
        match use.taken[taken]?.join with
        | some mark => use.subscriptions.rollback mark
        | none => use.subscriptions
      taken := use.taken ++ [none] }
  | .parse source =>
    let (parser, calls) := use.parser.parse source
    { parser, taken := use.taken ++ [none], made := use.made ++ [calls] }

/-- What a history of actions leads to. -/
def replay (history : List (Action α)) : Usage α :=
  history.foldl perform fresh

theorem replay_append_singleton (history : List (Action α)) (action : Action α) :
    replay (history ++ [action]) = (replay history).perform action := by
  simp [replay]

end Usage

/-! ## Survivors -/

/-- A listener with the position of the action that subscribed it. -/
structure Registration (α : Type) where
  position : Nat
  target : Target
  label : α

section Survivors

variable {α : Type}

/-- The listener that an action at a position subscribes. -/
def Action.registration? (position : Nat) : Action α → Option (Registration α)
  | .listen target label => some ⟨position, target, label⟩
  | _ => none

/-- The action rolls back to a mark that was taken before position `p`. -/
def Action.undoes (history : List (Action α)) (p : Nat) : Action α → Bool
  | .rollback taken => decide (taken < p) && history[taken]?.any Action.isMark
  | _ => false

/-- No action after position `p` rolls back to a mark taken before it. -/
def survives (history : List (Action α)) (p : Nat) : Bool :=
  (history.drop (p + 1)).all fun action => !action.undoes history p

/-- All listeners ever subscribed, in order. -/
def registrations (history : List (Action α)) : List (Registration α) :=
  history.zipIdx.filterMap fun (action, p) => action.registration? p

/-- The listeners that are left, in order of subscription. -/
def survivors (history : List (Action α)) : List (Registration α) :=
  (registrations history).filter fun r => survives history r.position

/-- The listener asks for the start tags of this name. -/
def Registration.wantsTag (name : List Char) (r : Registration α) : Bool :=
  match r.target with
  | .tag tag => Text.lower tag == name
  | .kind _ => false

/-- The survivors that hear an event: those of its kind, and for a start tag then those of its
name. -/
def audience (history : List (Action α)) (e : Event) : List α :=
  ((survivors history).filter (·.target = .kind e.kind)).map (·.label) ++
    match e.detail with
    | .tagStart name .. => ((survivors history).filter (·.wantsTag name)).map (·.label)
    | _ => []

/-! ## One more action -/

variable {history : List (Action α)} {p : Nat}

theorem registrations_append_singleton (history : List (Action α)) (action : Action α) :
    registrations (history ++ [action])
      = registrations history ++ (action.registration? history.length).toList := by
  cases h : action.registration? history.length <;>
    simp [registrations, List.zipIdx_append, h]

theorem getElem?_of_mem_registrations {r : Registration α} :
    r ∈ registrations history → history[r.position]? = some (.listen r.target r.label) := by
  intro hmem
  rcases List.mem_filterMap.1 hmem with ⟨⟨action, p⟩, hin, hr⟩
  have hat : history[p]? = some action := List.mk_mem_zipIdx_iff_getElem?.1 hin
  cases action with
  | listen target label =>
    cases hr
    exact hat
  | _ => cases hr

theorem position_lt_of_mem_registrations {r : Registration α} :
    r ∈ registrations history → r.position < history.length := by
  intro hmem
  have hat := getElem?_of_mem_registrations hmem
  exact (List.getElem?_eq_some_iff.1 hat).1

/-- Whether an action undoes what was done at `p` shows in the history up to `p`. -/
theorem undoes_append (hp : p ≤ history.length) (later : List (Action α)) (action : Action α) :
    action.undoes (history ++ later) p = action.undoes history p := by
  cases action with
  | rollback taken =>
    by_cases hbefore : taken < p
    · have hat : (history ++ later)[taken]? = history[taken]? :=
        List.getElem?_append_left (by omega)
      simp [Action.undoes, hat]
    · simp [Action.undoes, hbefore]
  | _ => rfl

/-- An older listener survives one more action if that action does not undo it. -/
theorem survives_append_singleton (hp : p < history.length) (action : Action α) :
    survives (history ++ [action]) p = (survives history p && !action.undoes history p) := by
  have hdrop : (history ++ [action]).drop (p + 1) = history.drop (p + 1) ++ [action] :=
    List.drop_append_of_le_length (by omega)
  simp [survives, hdrop, undoes_append hp.le]

/-- A new listener survives its own subscription. -/
theorem survives_last (history : List (Action α)) (action : Action α) :
    survives (history ++ [action]) history.length = true := by
  simp [survives]

theorem survivors_append_singleton (history : List (Action α)) (action : Action α) :
    survivors (history ++ [action])
      = (survivors history).filter (fun r => !action.undoes history r.position)
        ++ (action.registration? history.length).toList := by
  have hold : (registrations history).filter (fun r => survives (history ++ [action]) r.position)
      = (survivors history).filter (fun r => !action.undoes history r.position) := by
    rw [survivors, List.filter_filter]
    apply List.filter_congr
    intro r hr
    rw [survives_append_singleton (position_lt_of_mem_registrations hr), Bool.and_comm]
  have hnew : (action.registration? history.length).toList.filter
      (fun r => survives (history ++ [action]) r.position)
        = (action.registration? history.length).toList := by
    cases action with
    | listen target label => simp [Action.registration?, survives_last]
    | _ => rfl
  rw [survivors, registrations_append_singleton, List.filter_append, hold, hnew]

/-! ## Numbers count subscriptions -/

/-- The number of subscriptions made before position `p`. -/
def listensBefore (history : List (Action α)) (p : Nat) : Nat :=
  (history.take p).countP Action.isListen

@[simp]
theorem listensBefore_length (history : List (Action α)) :
    listensBefore history history.length = history.countP Action.isListen := by
  simp [listensBefore]

theorem listensBefore_append (hp : p ≤ history.length) (later : List (Action α)) :
    listensBefore (history ++ later) p = listensBefore history p := by
  simp [listensBefore, List.take_append_of_le_length hp]

theorem listensBefore_mono {p q : Nat} :
    p ≤ q → listensBefore history p ≤ listensBefore history q := by
  intro hle
  exact (List.take_sublist_take_left hle).countP_le

theorem listensBefore_succ {target : Target} {label : α}
    (hat : history[p]? = some (.listen target label)) :
    listensBefore history (p + 1) = listensBefore history p + 1 := by
  simp [listensBefore, List.take_add_one, hat, Action.isListen]

/-- A subscription has a smaller number than a mark exactly if it was made before the mark was
taken. -/
theorem listensBefore_lt_iff {m : Nat} {r : Registration α} (hr : r ∈ registrations history)
    (hmark : history[m]?.any Action.isMark = true) :
    listensBefore history r.position < listensBefore history m ↔ ¬ m < r.position := by
  have hat := getElem?_of_mem_registrations hr
  constructor
  · intro hlt hm
    have hmono : listensBefore history m ≤ listensBefore history r.position :=
      listensBefore_mono hm.le
    omega
  · intro hm
    -- the two positions hold different actions, so the mark was taken later
    have hne : m ≠ r.position := by
      rintro rfl
      simp [hat, Action.isMark] at hmark
    have hlater : r.position + 1 ≤ m := by omega
    have hmono : listensBefore history (r.position + 1) ≤ listensBefore history m :=
      listensBefore_mono hlater
    rw [listensBefore_succ hat] at hmono
    omega

end Survivors

/-! ## The invariant -/

namespace Usage

variable {α : Type} {use : Usage α} {history : List (Action α)}

/-- The subscription that a listener has made. -/
def entryOf (history : List (Action α)) (r : Registration α) : Subscription α :=
  ⟨listensBefore history r.position, r.target.normal, r.label⟩

/-- The mark that an action at a position has taken. -/
def markOf (history : List (Action α)) (p : Nat) (action : Action α) : Option Nat :=
  if action.isMark then some (listensBefore history p) else none

/-- The subscriptions are what the history says. -/
structure Reflects (use : Usage α) (history : List (Action α)) : Prop where
  entries : use.subscriptions.entries = (survivors history).map (entryOf history)
  next : use.subscriptions.next = history.countP Action.isListen
  taken : use.taken = history.zipIdx.map fun (action, p) => markOf history p action

theorem fresh_reflects : (fresh : Usage α).Reflects [] :=
  ⟨rfl, rfl, rfl⟩

/-- Later actions change neither an entry nor its number. -/
theorem map_entryOf_append (list : List (Registration α)) (action : Action α)
    (hlist : ∀ r ∈ list, r ∈ registrations history) :
    list.map (entryOf (history ++ [action])) = list.map (entryOf history) := by
  apply List.map_congr_left
  intro r hr
  have hlt := position_lt_of_mem_registrations (hlist r hr)
  simp [entryOf, listensBefore_append hlt.le]

theorem taken_append (action : Action α) :
    ((history ++ [action]).zipIdx.map fun (a, p) => markOf (history ++ [action]) p a)
      = (history.zipIdx.map fun (a, p) => markOf history p a)
        ++ [markOf history history.length action] := by
  have hold : (history.zipIdx.map fun (a, p) => markOf (history ++ [action]) p a)
      = history.zipIdx.map fun (a, p) => markOf history p a := by
    apply List.map_congr_left
    rintro ⟨a, p⟩ hin
    have hat := List.mk_mem_zipIdx_iff_getElem?.1 hin
    have hlt : p < history.length := (List.getElem?_eq_some_iff.1 hat).1
    simp [markOf, listensBefore_append hlt.le]
  have hnew : markOf (history ++ [action]) history.length action
      = markOf history history.length action := by
    simp [markOf, listensBefore_append (Nat.le_refl _)]
  simp [List.zipIdx_append, hold, hnew]

/-- The mark that a rollback finds, if there is one. -/
theorem Reflects.join_taken (h : use.Reflects history) (m : Nat) :
    use.taken[m]?.join
      = if history[m]?.any Action.isMark then some (listensBefore history m) else none := by
  rw [h.taken, List.getElem?_map, List.getElem?_zipIdx]
  cases hat : history[m]? <;> simp [markOf]

theorem survivors_subset {r : Registration α} :
    r ∈ survivors history → r ∈ registrations history := by
  intro hr
  exact (List.mem_filter.1 hr).1

theorem Reflects.listen (h : use.Reflects history) (target : Target) (label : α) :
    (use.perform (.listen target label)).Reflects (history ++ [.listen target label]) := by
  have hsurvivors : survivors (history ++ [.listen target label])
      = survivors history ++ [⟨history.length, target, label⟩] := by
    simp [survivors_append_singleton, Action.undoes, Action.registration?]
  refine ⟨?_, ?_, ?_⟩
  · have hold := map_entryOf_append (survivors history) (.listen target label) fun r hr =>
      survivors_subset hr
    have hnew : entryOf (history ++ [.listen target label]) ⟨history.length, target, label⟩
        = ⟨use.subscriptions.next, target.normal, label⟩ := by
      simp [entryOf, listensBefore_append, h.next]
    simp [perform, Subscriptions.subscribe, hsurvivors, hold, hnew, h.entries]
  · simp [perform, Subscriptions.subscribe, h.next, Action.isListen]
  · rw [taken_append, ← h.taken]
    rfl

/-- Actions that subscribe nothing and undo nothing leave the subscriptions as they are. -/
theorem Reflects.idle (h : use.Reflects history) (inside : OpenElements)
    (made : List (List (Call α))) (action : Action α) (hlisten : action.isListen = false)
    (hundo : ∀ p, action.undoes history p = false) :
    Reflects
      ⟨⟨use.subscriptions, inside⟩, use.taken ++ [markOf history history.length action], made⟩
      (history ++ [action]) := by
  have hnone : action.registration? history.length = none := by
    cases action with
    | listen => cases hlisten
    | _ => rfl
  have hsurvivors : survivors (history ++ [action]) = survivors history := by
    simp [survivors_append_singleton, hundo, hnone]
  refine ⟨?_, ?_, ?_⟩
  · rw [hsurvivors, map_entryOf_append _ action fun r hr => survivors_subset hr]
    exact h.entries
  · simp [h.next, hlisten]
  · rw [taken_append, ← h.taken]

theorem Reflects.rollback (h : use.Reflects history) (m : Nat) :
    (use.perform (.rollback m)).Reflects (history ++ [.rollback m]) := by
  cases hmark : history[m]?.any Action.isMark with
  | false =>
    -- no mark was taken there, so neither side drops anything
    have hundo : ∀ p, (Action.rollback m : Action α).undoes history p = false := by
      intro p
      simp [Action.undoes, hmark]
    have hidle := h.idle use.parser.inside use.made (.rollback m) rfl hundo
    simpa [perform, h.join_taken, hmark, markOf, Action.isMark] using hidle
  | true =>
    have hsurvivors : survivors (history ++ [.rollback m])
        = (survivors history).filter fun r => !decide (m < r.position) := by
      simp [survivors_append_singleton, Action.undoes, Action.registration?, hmark]
    have hentries : (use.subscriptions.rollback (listensBefore history m)).entries
        = (survivors (history ++ [.rollback m])).map (entryOf history) := by
      simp only [hsurvivors, Subscriptions.rollback, h.entries, List.filter_map]
      apply congrArg
      apply List.filter_congr
      intro r hr
      have hiff := listensBefore_lt_iff (survivors_subset hr) hmark
      rw [← decide_not]
      exact decide_eq_decide.2 hiff
    refine ⟨?_, ?_, ?_⟩
    · have hold := map_entryOf_append (survivors (history ++ [.rollback m])) (.rollback m) (by
        intro r hr
        rw [hsurvivors] at hr
        exact survivors_subset (List.mem_filter.1 hr).1)
      simp only [perform, h.join_taken, hmark, if_true]
      exact hentries.trans hold.symm
    · simp [perform, h.join_taken, hmark, Subscriptions.rollback, h.next, Action.isListen]
    · rw [taken_append, ← h.taken]
      rfl

theorem Reflects.perform (h : use.Reflects history) (action : Action α) :
    (use.perform action).Reflects (history ++ [action]) := by
  cases action with
  | listen target label => exact h.listen target label
  | mark =>
    have hidle := h.idle use.parser.inside use.made .mark rfl fun _ => rfl
    have hnumber : markOf history history.length .mark = some use.subscriptions.mark := by
      simp [markOf, Action.isMark, Subscriptions.mark, h.next]
    rw [hnumber] at hidle
    exact hidle
  | rollback m => exact h.rollback m
  | parse source => exact h.idle _ _ (.parse source) rfl fun _ => rfl

/-- Whatever was done, the subscriptions are those of the survivors. -/
theorem replay_reflects (history : List (Action α)) : (replay history).Reflects history := by
  induction history using List.reverseRecOn with
  | nil => exact fresh_reflects
  | append_singleton history action ih =>
    rw [replay_append_singleton]
    exact ih.perform action

/-! ## Calls -/

/-- The listeners called for an event are the survivors that hear it. -/
theorem Reflects.called_eq (h : use.Reflects history) (e : Event) :
    use.subscriptions.called e = audience history e := by
  have hkind : use.subscriptions.listeners (.kind e.kind)
      = ((survivors history).filter (·.target = .kind e.kind)).map (·.label) := by
    rw [Subscriptions.listeners, h.entries, List.filter_map, List.map_map]
    apply congrArg
    apply List.filter_congr
    intro r _
    cases htarget : r.target <;> simp [entryOf, Target.normal, htarget]
  have htag : ∀ name, use.subscriptions.listeners (.tag name)
      = ((survivors history).filter (·.wantsTag name)).map (·.label) := by
    intro name
    rw [Subscriptions.listeners, h.entries, List.filter_map, List.map_map]
    apply congrArg
    apply List.filter_congr
    intro r _
    cases htarget : r.target <;>
      simp [entryOf, Target.normal, Registration.wantsTag, htarget, Bool.beq_eq_decide_eq]
  cases hdetail : e.detail <;> simp [Subscriptions.called, audience, hdetail, hkind, htag]

/-- After any history, reading a document calls for each of its events the surviving listeners of
the event's kind and, for a start tag, then those of its name, each in order of subscription; the
events of a tag's attributes come only after that. The subscriptions are as many as the survivors.
-/
theorem parse_calls_survivors (history : List (Action α)) (source : List Char) :
    (replay (history ++ [.parse source])).made
        = (replay history).made
          ++ [(events source).flatMap fun e => (audience history e).map fun label => ⟨label, e⟩]
      ∧ (replay history).subscriptions.size = (survivors history).length
      ∧ ∀ before e after, events source = before ++ e :: after → e.kind = .tagStart →
          e.HasAttributes (after.takeWhile (·.kind == .attr)) := by
  have hreflects := replay_reflects history
  refine ⟨?_, ?_, ?_⟩
  · rw [replay_append_singleton]
    simp [perform, Parser.parse_eq, Subscriptions.calls, ← hreflects.called_eq, subscriptions]
  · simp [Subscriptions.size, hreflects.entries]
  · intro before e after hsplit hkind
    have hnot : e.kind ≠ .attr := by simp [hkind]
    exact (events_grouped source).1.hasAttributes hsplit hnot

/-- The later of two marks is used after the earlier one, and drops a listener that was subscribed
in between. -/
def crossedMarks : List (Action Nat) :=
  [.listen (.kind .tagStart) 0, .mark, .listen (.tag ['P']) 1, .mark, .rollback 1,
    .listen (.tag ['p']) 2, .rollback 3, .listen (.tag ['P']) 3]

/-- In `<p x>` the two listeners that are left hear the tag, and the attribute comes after it. -/
theorem parse_crossedMarks :
    (replay (crossedMarks ++ [.parse ['<', 'p', ' ', 'x', '>']])).made.map
        (·.map fun call => (call.label, call.event.kind)) = [[(0, .tagStart), (3, .tagStart)]]
      ∧ (replay crossedMarks).subscriptions.size = 2
      ∧ ∃ before e after, events ['<', 'p', ' ', 'x', '>'] = before ++ e :: after
        ∧ e.kind = .tagStart ∧ e.HasAttributes (after.takeWhile (·.kind == .attr)) := by
  rcases parse_calls_survivors crossedMarks ['<', 'p', ' ', 'x', '>'] with
    ⟨hmade, hsize, hattributes⟩
  refine ⟨?_, ?_, ?_⟩
  · rw [hmade]
    decide +kernel
  · rw [hsize]
    decide
  · have hsplit : events ['<', 'p', ' ', 'x', '>']
        = [startEvent] ++ ⟨.tagStart ['p'] [⟨['x'], [], .missing, ['x'], ⟨3, 4⟩⟩] false,
            ['<', 'p', ' ', 'x', '>'], ⟨0, 5⟩, ⟨1, 1⟩, 0⟩
          :: (events ['<', 'p', ' ', 'x', '>']).drop 2 := by
      decide +kernel
    exact ⟨_, _, _, hsplit, rfl, hattributes _ _ _ hsplit rfl⟩

end Usage

end HtmlLint
