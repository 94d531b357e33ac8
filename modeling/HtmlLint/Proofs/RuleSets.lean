import HtmlLint.RuleSet.Reading
import Mathlib.Data.List.TakeWhile

/-!
# What a rule set says about a rule

Rule sets are written as lists, as JSON objects and as comments. A rule may be named several times
in each of them, and the last time counts. What a text says about a rule can so be read off the
text:

* `RuleSet.listSays?` — the last piece of a list that names the rule.
* `RuleSet.jsonSays?` — the last member of an object that has the rule's name.
* `RuleSet.documentSays?` — the list in the comment at the top of a document.

The rule sets that are read from these texts say the same (`says?`), and where one set is applied on
top of another the upper one is asked first (`says?_apply`). The fallback is never read from a text.
-/

namespace HtmlLint

/-! ## The last entry with a key -/

/-- The value of the last entry with this key. -/
def lastOf? {α β : Type} [BEq α] (entries : List (α × β)) (key : α) : Option β :=
  entries.reverse.lookup key

section lastOf

variable {α β : Type} [BEq α]

theorem lastOf?_cons (k : α) (v : β) (entries : List (α × β)) (key : α) :
    lastOf? ((k, v) :: entries) key
      = (lastOf? entries key).or (if key == k then some v else none) := by
  rw [lastOf?, lastOf?, List.reverse_cons, List.lookup_append, List.lookup_cons]
  cases key == k <;> rfl

variable [LawfulBEq α]

/-- Among entries with distinct keys it does not matter where an entry stands. -/
theorem lastOf?_eq_some_iff {entries : List (α × β)} (hdistinct : entries.Pairwise (·.1 ≠ ·.1))
    {key : α} {v : β} : lastOf? entries key = some v ↔ (key, v) ∈ entries := by
  rw [lastOf?, List.lookup_eq_some_iff, ← List.mem_reverse]
  constructor
  · rintro ⟨later, earlier, hentries, -⟩
    simp [hentries]
  · intro hmem
    rcases List.append_of_mem hmem with ⟨later, earlier, hentries⟩
    refine ⟨later, earlier, hentries, ?_⟩
    have hreverse : entries.reverse.Pairwise (·.1 ≠ ·.1) :=
      List.pairwise_reverse.2 (hdistinct.imp Ne.symm)
    rw [hentries] at hreverse
    intro p hp
    have hne : p.1 ≠ key :=
      (List.pairwise_append.1 hreverse).2.2 p hp (key, v) List.mem_cons_self
    simpa using hne.symm

/-- A map that is filled entry by entry has the last value of every key. -/
theorem getElem?_foldl_insert (name : α → String) (hname : Function.Injective name)
    (entries : List (α × β)) (values : Std.TreeMap String β) (key : α) :
    (entries.foldl (fun values (k, v) => values.insert (name k) v) values)[name key]?
      = (lastOf? entries key).or values[name key]? := by
  induction entries generalizing values with
  | nil => simp [lastOf?]
  | cons entry entries ih =>
    rcases entry with ⟨k, v⟩
    rw [List.foldl_cons, ih, lastOf?_cons, Option.or_assoc]
    congr 1
    by_cases hkey : key = k
    · simp [hkey]
    · have hother : name k ≠ name key := fun h => hkey (hname h).symm
      simp [Std.TreeMap.getElem?_insert, hkey, hother]

end lastOf

theorem distinct_names {β : Type} (values : Std.TreeMap String β) :
    values.toList.Pairwise (·.1 ≠ ·.1) :=
  Std.TreeMap.distinct_keys_toList.imp fun h heq => h (by simp [heq])

theorem lastOf?_toList {β : Type} (values : Std.TreeMap String β) (key : String) :
    lastOf? values.toList key = values[key]? := by
  apply Option.ext
  intro v
  rw [lastOf?_eq_some_iff (distinct_names values)]
  exact Std.TreeMap.mem_toList_iff_getElem?_eq_some

theorem Text.splitOn_of_not_mem {sep : Char} {s : List Char} (h : sep ∉ s) :
    splitOn sep s = [s] := by
  induction s with
  | nil => rfl
  | cons c s ih =>
    have hc : c ≠ sep := by
      rintro rfl
      exact h List.mem_cons_self
    rw [splitOn_cons_of_ne hc, ih fun hmem => h (List.mem_cons_of_mem c hmem)]
    rfl

namespace RuleSet

/-! ## Rule sets -/

/-- What the set says about a rule, if it names it. -/
def says? (rules : RuleSet) (id : String) : Option Bool :=
  rules.named[id]?

theorem isEnabled_eq_says? (rules : RuleSet) (id : String) :
    rules.isEnabled id = (rules.says? id).getD rules.fallback := rfl

theorem fallback_setAll (rules : RuleSet) (entries : List (String × Bool)) :
    (rules.setAll entries).fallback = rules.fallback := by
  induction entries generalizing rules with
  | nil => rfl
  | cons entry entries ih => exact ih (rules.set entry.1 entry.2)

theorem says?_setAll (rules : RuleSet) (entries : List (String × Bool)) (rule : String) :
    (rules.setAll entries).says? rule = (lastOf? entries rule).or (rules.says? rule) := by
  have hnamed : (rules.setAll entries).named
      = entries.foldl (fun values entry => values.insert entry.1 entry.2) rules.named := by
    rw [setAll]
    exact (List.foldl_hom RuleSet.named (by intro _ _; rfl)).symm
  rw [says?, hnamed]
  exact getElem?_foldl_insert id Function.injective_id entries rules.named rule

theorem says?_off_setAll (entries : List (String × Bool)) (id : String) :
    (off.setAll entries).says? id = lastOf? entries id := by
  rw [says?_setAll]
  simp [says?, off]

/-- The upper set is asked first. -/
theorem says?_apply (rules top : RuleSet) (id : String) :
    (rules.apply top).says? id = (top.says? id).or (rules.says? id) := by
  rw [apply, says?_setAll, entries, lastOf?_toList]
  rfl

/-- Nothing changes for rules that the upper set does not name. -/
theorem isEnabled_apply (rules top : RuleSet) (id : String) :
    (rules.apply top).isEnabled id = (top.says? id).getD (rules.isEnabled id) := by
  rw [isEnabled_eq_says?, says?_apply, apply, fallback_setAll, isEnabled_eq_says?]
  cases top.says? id <;> rfl

/-! ## Lists -/

/-- What a list says about a rule: its last piece that names the rule counts. -/
def listSays? (list : List Char) (id : String) : Option Bool :=
  lastOf? ((Text.splitOn ',' list).filterMap switch?) id

theorem filterMap_of_mapM {α β : Type} {f : α → Option β} {list : List α} {found : List β}
    (h : list.mapM f = some found) : list.filterMap f = found := by
  induction list generalizing found with
  | nil =>
    cases h
    rfl
  | cons a list ih =>
    rw [List.mapM_cons] at h
    cases ha : f a with
    | none => simp [ha] at h
    | some b =>
      cases hrest : list.mapM f with
      | none => simp [ha, hrest] at h
      | some others =>
        obtain rfl : b :: others = found := by simpa [ha, hrest] using h
        rw [List.filterMap_cons_some ha, ih hrest]

theorem trim_of_blank {s : List Char} (h : ∀ c ∈ s, Text.isBlank c = true) : Text.trim s = [] := by
  have hstart : Text.trimStart s = [] := List.dropWhile_eq_nil_iff.2 h
  rw [Text.trim, hstart]
  rfl

theorem switch?_of_blank {piece : List Char} (h : ∀ c ∈ piece, Text.isBlank c = true) :
    switch? piece = none := by
  have hcolon : Text.cutAt? (· == ':') piece = none := by
    have hnone : piece.dropWhile (fun c => !(c == ':')) = [] := by
      rw [List.dropWhile_eq_nil_iff]
      intro c hc
      have hne : c ≠ ':' := by
        rintro rfl
        have hblank := h ':' hc
        cases hblank
      simpa using hne
    simp [Text.cutAt?, hnone]
  simp [switch?, hcolon, trim_of_blank h]

theorem splitOn_comma_of_blank {list : List Char} (h : ∀ c ∈ list, Text.isBlank c = true) :
    Text.splitOn ',' list = [list] := by
  apply Text.splitOn_of_not_mem
  intro hmem
  have hblank := h ',' hmem
  cases hblank

/-- A blank list has one piece, and that one names nothing. -/
theorem listSays?_of_blank {list : List Char} (h : ∀ c ∈ list, Text.isBlank c = true)
    (id : String) : listSays? list id = none := by
  rw [listSays?, splitOn_comma_of_blank h, List.filterMap_cons_none (switch?_of_blank h)]
  rfl

/-- The set that a list is read as says what the list says, and no rule runs by default. -/
theorem says?_of_ofList {list : List Char} {rules : RuleSet} (h : ofList list = .ok rules) :
    rules.fallback = false ∧ ∀ id, rules.says? id = listSays? list id := by
  unfold ofList at h
  split at h
  · next hblank =>
    cases h
    refine ⟨rfl, fun id => ?_⟩
    rw [listSays?_of_blank (List.all_eq_true.1 hblank)]
    simp [says?, off]
  · split at h
    · next entries hentries =>
      cases h
      refine ⟨fallback_setAll off entries, fun id => ?_⟩
      rw [says?_off_setAll, listSays?, filterMap_of_mapM hentries]
    · cases h

/-! ## JSON -/

/-- The value as a truth value. -/
def bool? : Json → Option Bool
  | .bool b => some b
  | _ => none

/-- What a JSON object says about a rule: its last member of that name counts. -/
def jsonSays? (s : List Char) (id : String) : Option Bool :=
  match Json.read s with
  | .ok (.object members) => (lastOf? members id.toList).bind bool?
  | _ => none

theorem lastOf?_lastValues (members : List (List Char × Json)) (id : String) :
    lastOf? (lastValues members) id = lastOf? members id.toList := by
  have hfold := getElem?_foldl_insert String.ofList (fun _ _ => String.ofList_injective) members ∅
    id.toList
  rw [String.ofList_toList] at hfold
  rw [lastValues, lastOf?_toList]
  simpa using hfold

/-- Members are switches if each of them is true or false. -/
theorem eq_map_of_mapM_switch {members : List (String × Json)} {entries : List (String × Bool)}
    (h : members.mapM switch = .ok entries) :
    members = entries.map fun (id, enabled) => (id, .bool enabled) := by
  induction members generalizing entries with
  | nil =>
    cases h
    rfl
  | cons member members ih =>
    rcases member with ⟨id, value⟩
    rw [List.mapM_cons] at h
    cases value with
    | bool enabled =>
      cases hrest : members.mapM switch with
      | error fault =>
        rw [hrest] at h
        cases h
      | ok others =>
        rw [hrest] at h
        cases h
        rw [ih hrest]
        rfl
    | _ => cases h

theorem lastOf?_map_bool (entries : List (String × Bool)) (id : String) :
    lastOf? (entries.map fun (id, enabled) => (id, Json.bool enabled)) id
      = (lastOf? entries id).map Json.bool := by
  induction entries with
  | nil => rfl
  | cons entry entries ih =>
    rw [List.map_cons, lastOf?_cons, ih, lastOf?_cons]
    cases lastOf? entries id with
    | some enabled => rfl
    | none => cases id == entry.1 <;> rfl

/-- The set that a JSON object is read as says what the object says, and no rule runs by default. -/
theorem says?_of_ofJson {s : List Char} {rules : RuleSet} (h : ofJson s = .ok rules) :
    rules.fallback = false ∧ ∀ id, rules.says? id = jsonSays? s id := by
  unfold ofJson at h
  split at h
  · next value hvalue =>
    cases value with
    | object members =>
      cases hentries : (lastValues members).mapM switch with
      | error fault =>
        simp only [ofValue, hentries] at h
        cases h
      | ok entries =>
        simp only [ofValue, hentries] at h
        cases h
        refine ⟨fallback_setAll off entries, fun id => ?_⟩
        have hlast : lastOf? members id.toList = (lastOf? entries id).map Json.bool := by
          rw [← lastOf?_lastValues, eq_map_of_mapM_switch hentries, lastOf?_map_bool]
        rw [says?_off_setAll, jsonSays?, hvalue]
        simp only [hlast]
        cases lastOf? entries id <;> rfl
    | _ => cases h
  · cases h

/-! ## Comments -/

/-- What the comment at the top of a document says about a rule. A comment that is not well-formed
says nothing. -/
def documentSays? (document : List Char) (id : String) : Option Bool :=
  match ofDocument document, (openingComment? document).bind inlineList? with
  | .ok (some _), some list => listSays? list id
  | _, _ => none

theorem says?_of_ofDocument {document : List Char} {rules : RuleSet}
    (h : ofDocument document = .ok (some rules)) (id : String) :
    rules.says? id = documentSays? document id := by
  rw [documentSays?, h]
  unfold ofDocument at h
  split at h
  · next list hlist =>
    cases hread : ofList list with
    | error fault =>
      rw [hread] at h
      cases h
    | ok read =>
      rw [hread] at h
      cases h
      rw [hlist]
      exact (says?_of_ofList hread).2 id
  · cases h

end RuleSet

end HtmlLint
