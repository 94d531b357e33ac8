import HtmlLint.Proofs.RuleSets

/-!
# Rules in lists

A list is cut at its commas, and each piece at its first colon. What stands before the colon names a
rule, with the blanks around it left out; the rule is off if `false` stands behind the colon, and on
otherwise. A list that is not blank is refused exactly if some piece names nothing.

* `Nameless` — a piece that names no rule.
* `pieceId`, `pieceOn` — the rule that a piece names, and whether it is on.
* `listText` — entries written as a list. Reading it back gives the entries (`ofList_listText`).
* `ofList_by_pieces` — what every text is read as.
-/

namespace HtmlLint

namespace Text

/-- The pieces are those of the library's lists. -/
theorem splitOn_eq (sep : Char) (s : List Char) : splitOn sep s = s.splitOn sep := by
  induction s with
  | nil => simp
  | cons c s ih =>
    rw [List.splitOn_cons_eq_if_modifyHead]
    by_cases hc : c = sep
    · simp [hc, ih]
    · simp [splitOn_cons_of_ne hc, hc, ih]

theorem trim_eq_nil_iff {s : List Char} : trim s = [] ↔ ∀ c ∈ s, isBlank c = true := by
  constructor
  · intro htrim
    have hends : ∀ c ∈ trimStart s, isBlank c = true := by
      simpa [trim, trimEnd] using htrim
    -- nothing is left after the leading blanks, because it would not start with a blank
    refine List.dropWhile_eq_nil_iff.1 ?_
    cases hstart : s.dropWhile isBlank with
    | nil => rfl
    | cons c rest =>
      have hblank : isBlank c = true := hends c (by simp [trimStart, hstart])
      have hhead := List.head?_dropWhile_not isBlank s
      rw [hstart] at hhead
      simp [hblank] at hhead
  · exact RuleSet.trim_of_blank

theorem trim_of_ends {s : List Char} (hhead : ∀ c ∈ s.head?, isBlank c = false)
    (hlast : ∀ c ∈ s.getLast?, isBlank c = false) : trim s = s := by
  have hdrop : ∀ u : List Char, (∀ c ∈ u.head?, isBlank c = false) → u.dropWhile isBlank = u := by
    intro u hu
    cases u with
    | nil => rfl
    | cons c u => rw [List.dropWhile_cons_of_neg (by simp [hu c rfl])]
  rw [trim, trimStart, hdrop s hhead, trimEnd, hdrop, List.reverse_reverse]
  simpa using hlast

end Text

namespace RuleSet

/-! ## Pieces -/

/-- What stands before the first colon of a piece; all of it if there is none. -/
def idPart (piece : List Char) : List Char :=
  piece.takeWhile (· != ':')

/-- What stands behind the first colon of a piece; nothing if there is none. -/
def valuePart (piece : List Char) : List Char :=
  (piece.dropWhile (· != ':')).tail

/-- The piece names no rule. -/
def Nameless (piece : List Char) : Prop :=
  ∀ c ∈ idPart piece, Text.isBlank c = true

instance : DecidablePred Nameless := fun piece =>
  List.decidableBAll (Text.isBlank · = true) (idPart piece)

/-- The rule that a piece names. -/
def pieceId (piece : List Char) : String :=
  String.ofList (Text.trim (idPart piece))

/-- The rule that a piece names is on. -/
def pieceOn (piece : List Char) : Bool :=
  Text.trim (valuePart piece) != "false".toList

theorem cutAt?_colon (piece : List Char) :
    (Text.cutAt? (· == ':') piece).getD (piece, []) = (idPart piece, valuePart piece) := by
  have hcut : (fun c : Char => !(c == ':')) = (· != ':') := rfl
  rw [Text.cutAt?, hcut, idPart, valuePart]
  cases hdrop : piece.dropWhile (· != ':') with
  | nil =>
    have hwhole : piece.takeWhile (· != ':') = piece := by
      have happend := List.takeWhile_append_dropWhile (p := (· != ':')) (l := piece)
      rwa [hdrop, List.append_nil] at happend
    rw [hwhole]
    rfl
  | cons c rest => rfl

theorem switch?_of_nameless {piece : List Char} (h : Nameless piece) : switch? piece = none := by
  simp [switch?, cutAt?_colon, Text.trim_eq_nil_iff.2 h]

theorem switch?_of_named {piece : List Char} (h : ¬ Nameless piece) :
    switch? piece = some (pieceId piece, pieceOn piece) := by
  have hid : Text.trim (idPart piece) ≠ [] := fun hnil => h (Text.trim_eq_nil_iff.1 hnil)
  simp only [switch?, cutAt?_colon, List.isEmpty_iff, hid, if_false]
  rfl

/-! ## Reading -/

theorem mapM_switch?_of_named {pieces : List (List Char)} (h : ∀ piece ∈ pieces, ¬ Nameless piece) :
    pieces.mapM switch? = some (pieces.map fun piece => (pieceId piece, pieceOn piece)) := by
  induction pieces with
  | nil => rfl
  | cons piece pieces ih =>
    have hfirst := switch?_of_named (h piece List.mem_cons_self)
    have hothers := ih fun other hother => h other (List.mem_cons_of_mem piece hother)
    rw [List.mapM_cons, hfirst, hothers]
    rfl

/-- One piece that names nothing is enough for the whole list to be refused. -/
theorem mapM_switch?_of_nameless {pieces : List (List Char)} {piece : List Char}
    (hmem : piece ∈ pieces) (h : Nameless piece) : pieces.mapM switch? = none := by
  induction pieces with
  | nil => cases hmem
  | cons first pieces ih =>
    rw [List.mapM_cons]
    rcases List.mem_cons.1 hmem with rfl | hmem
    · rw [switch?_of_nameless h]
      rfl
    · rw [ih hmem]
      cases switch? first <;> rfl

/-- A list in which every piece names a rule is read piece by piece. -/
theorem ofList_of_named {s : List Char} (h : ∀ piece ∈ Text.splitOn ',' s, ¬ Nameless piece) :
    ofList s = .ok
      (off.setAll ((Text.splitOn ',' s).map fun piece => (pieceId piece, pieceOn piece))) := by
  have hmore : s.all Text.isBlank = false := by
    by_contra hblank
    have hblank : ∀ c ∈ s, Text.isBlank c = true := by simpa using hblank
    have hpiece := switch?_of_named (h s (by simp [splitOn_comma_of_blank hblank]))
    rw [switch?_of_blank hblank] at hpiece
    cases hpiece
  simp [ofList, hmore, mapM_switch?_of_named h]

theorem ofList_of_nameless {s piece : List Char} (hmore : ∃ c ∈ s, Text.isBlank c = false)
    (hmem : piece ∈ Text.splitOn ',' s) (h : Nameless piece) : ofList s = .error .emptyId := by
  have hmore : s.all Text.isBlank = false := by simpa using hmore
  simp [ofList, hmore, mapM_switch?_of_nameless hmem h]

/-- The last entry with a key, where the entries are made from other things. -/
theorem lastOf?_map {α β γ : Type} [BEq α] [LawfulBEq α] (f : γ → α) (g : γ → β)
    (list : List γ) (key : α) :
    lastOf? (list.map fun c => (f c, g c)) key = (list.reverse.find? (f · == key)).map g := by
  rw [lastOf?, ← List.map_reverse]
  induction list.reverse with
  | nil => rfl
  | cons c others ih =>
    rw [List.map_cons, List.lookup_cons, List.find?_cons, ih, BEq.comm]
    cases f c == key <;> rfl

/-! ## Writing -/

/-- An entry as a piece of a list. -/
def entryText (entry : String × Bool) : List Char :=
  entry.1.toList ++ if entry.2 then [] else ":false".toList

/-- Entries as a list, in their order. -/
def listText (entries : List (String × Bool)) : List Char :=
  [','].intercalate (entries.map entryText)

/-- The id can be written in a list: it is not empty, no blanks stand around it, and it has no comma
and no colon. -/
structure Writable (id : String) : Prop where
  nonempty : id.toList ≠ []
  head : ∀ c ∈ id.toList.head?, Text.isBlank c = false
  last : ∀ c ∈ id.toList.getLast?, Text.isBlank c = false
  comma : ',' ∉ id.toList
  colon : ':' ∉ id.toList

namespace Writable

variable {id : String}

theorem ne_colon (h : Writable id) : ∀ c ∈ id.toList, (c != ':') = true := by
  intro c hc
  have hne : c ≠ ':' := by
    rintro rfl
    exact h.colon hc
  simpa using hne

theorem idPart_entryText (h : Writable id) (enabled : Bool) :
    idPart (entryText (id, enabled)) = id.toList := by
  rw [idPart, entryText, List.takeWhile_append_of_pos h.ne_colon]
  cases enabled
  · exact List.append_nil _
  · exact List.append_nil _

theorem valuePart_entryText (h : Writable id) (enabled : Bool) :
    valuePart (entryText (id, enabled)) = if enabled then [] else "false".toList := by
  rw [valuePart, entryText, List.dropWhile_append_of_pos h.ne_colon]
  cases enabled
  · rfl
  · rfl

theorem not_nameless (h : Writable id) (enabled : Bool) : ¬ Nameless (entryText (id, enabled)) := by
  intro hnameless
  rw [Nameless, h.idPart_entryText] at hnameless
  rcases List.exists_cons_of_ne_nil h.nonempty with ⟨c, rest, hid⟩
  have hfirst := h.head c (by simp [hid])
  rw [hnameless c (by simp [hid])] at hfirst
  cases hfirst

/-- The piece of an entry is read as the entry. -/
theorem piece_entryText (h : Writable id) (enabled : Bool) :
    (pieceId (entryText (id, enabled)), pieceOn (entryText (id, enabled))) = (id, enabled) := by
  rw [pieceId, pieceOn, h.idPart_entryText, h.valuePart_entryText, Text.trim_of_ends h.head h.last,
    String.ofList_toList]
  cases enabled
  · rfl
  · rfl

theorem comma_not_mem (h : Writable id) (enabled : Bool) : ',' ∉ entryText (id, enabled) := by
  intro hmem
  rcases List.mem_append.1 hmem with hmem | hmem
  · exact h.comma hmem
  · cases enabled
    · exact absurd hmem (by decide : ',' ∉ ":false".toList)
    · cases hmem

end Writable

/-- Entries that are written as a list are read back one after the other. -/
theorem ofList_listText {entries : List (String × Bool)}
    (h : ∀ entry ∈ entries, Writable entry.1) :
    ofList (listText entries) = .ok (off.setAll entries) := by
  cases entries with
  | nil => rfl
  | cons first others =>
    have hpieces : Text.splitOn ',' (listText (first :: others))
        = (first :: others).map entryText := by
      rw [Text.splitOn_eq, listText]
      refine List.splitOn_intercalate ',' ?_ (by simp)
      intro piece hpiece
      rcases List.mem_map.1 hpiece with ⟨entry, hentry, rfl⟩
      exact (h entry hentry).comma_not_mem entry.2
    have hread : ((first :: others).map entryText).map
        (fun piece => (pieceId piece, pieceOn piece)) = first :: others := by
      rw [List.map_map]
      refine (List.map_congr_left ?_).trans (List.map_id _)
      intro entry hentry
      exact (h entry hentry).piece_entryText entry.2
    rw [ofList_of_named, hpieces, hread]
    intro piece hpiece
    rw [hpieces] at hpiece
    rcases List.mem_map.1 hpiece with ⟨entry, hentry, rfl⟩
    exact (h entry hentry).not_nameless entry.2

/-- A set that says what entries with distinct ids say has just these entries. -/
theorem entries_perm {rules : RuleSet} {entries : List (String × Bool)}
    (hdistinct : (entries.map (·.1)).Nodup)
    (h : ∀ id b, rules.says? id = some b ↔ (id, b) ∈ entries) : rules.entries.Perm entries := by
  have hkeys : entries.Pairwise (·.1 ≠ ·.1) := List.pairwise_map.1 hdistinct
  have hnodup : ∀ list : List (String × Bool), list.Pairwise (·.1 ≠ ·.1) → list.Nodup :=
    fun _ h => h.imp fun hne heq => hne (congrArg Prod.fst heq)
  have hsorted : rules.entries.Pairwise (·.1 ≠ ·.1) := distinct_names rules.named
  rw [List.perm_ext_iff_of_nodup (hnodup _ hsorted) (hnodup _ hkeys)]
  intro entry
  calc
    entry ∈ rules.entries ↔ rules.says? entry.1 = some entry.2 :=
      Std.TreeMap.mem_toList_iff_getElem?_eq_some
    _ ↔ entry ∈ entries := h entry.1 entry.2

/-- Switching rules with distinct ids gives a set with just these entries. -/
theorem entries_setAll_perm {entries : List (String × Bool)}
    (hdistinct : (entries.map (·.1)).Nodup) : (off.setAll entries).entries.Perm entries := by
  refine entries_perm hdistinct ?_
  intro id b
  rw [says?_off_setAll, lastOf?_eq_some_iff (List.pairwise_map.1 hdistinct)]

/-! ## Every text -/

/-- What a text is read as. A blank list switches nothing. Any other list is refused exactly if a
piece names no rule; if none does, it is read as the set that has the ids of its pieces, each
switched by the last piece with that id, and leaves all other rules off. So entries with distinct
ids that can be written are read back from their list, in whichever order they are written. -/
theorem ofList_by_pieces (s : List Char) :
    ((∀ c ∈ s, Text.isBlank c = true) → ofList s = .ok off)
      ∧ ((∃ c ∈ s, Text.isBlank c = false) →
        (ofList s = .error .emptyId ↔ ∃ piece ∈ Text.splitOn ',' s, Nameless piece)
          ∧ ((∀ piece ∈ Text.splitOn ',' s, ¬ Nameless piece) →
            ∃ rules, ofList s = .ok rules ∧ rules.fallback = false
              ∧ ∀ id, rules.named[id]?
                = ((Text.splitOn ',' s).reverse.find? (pieceId · == id)).map pieceOn))
      ∧ ∀ entries : List (String × Bool), (entries.map (·.1)).Nodup →
        (∀ entry ∈ entries, Writable entry.1) →
          ∃ rules, ofList (listText entries) = .ok rules ∧ rules.fallback = false
            ∧ rules.entries.Perm entries := by
  refine ⟨?_, ?_, ?_⟩
  · intro hblank
    have hall : s.all Text.isBlank = true := by simpa using hblank
    simp [ofList, hall]
  · intro hmore
    refine ⟨⟨?_, ?_⟩, ?_⟩
    · intro hrefused
      by_contra hnamed
      have hread := ofList_of_named fun piece hpiece hnameless =>
        hnamed ⟨piece, hpiece, hnameless⟩
      rw [hread] at hrefused
      cases hrefused
    · rintro ⟨piece, hpiece, hnameless⟩
      exact ofList_of_nameless hmore hpiece hnameless
    · intro hnamed
      refine ⟨_, ofList_of_named hnamed, fallback_setAll _ _, ?_⟩
      intro id
      exact (says?_off_setAll _ id).trans (lastOf?_map pieceId pieceOn _ id)
  · intro entries hdistinct hwritable
    exact ⟨_, ofList_listText hwritable, fallback_setAll _ _, entries_setAll_perm hdistinct⟩

/-- In ` a :false,b:no:false,a` the last piece switches `a` on again, and the value of `b` is
`no:false`. In `a, :b` the second piece names nothing. Two entries are read back from their list. -/
theorem ofList_last_piece :
    (∃ rules, ofList " a :false,b:no:false,a".toList = .ok rules ∧ rules.fallback = false
        ∧ rules.named["a"]? = some true ∧ rules.named["b"]? = some true
        ∧ rules.named["c"]? = none)
      ∧ ofList "a, :b".toList = .error .emptyId
      ∧ ∃ rules, ofList "b:false,a".toList = .ok rules ∧ rules.fallback = false
        ∧ rules.entries.Perm [("b", false), ("a", true)] := by
  have hmany := (ofList_by_pieces " a :false,b:no:false,a".toList).2.1
    ⟨'a', by decide +kernel, by decide⟩
  have hnone := (ofList_by_pieces "a, :b".toList).2.1 ⟨'a', by decide +kernel, by decide⟩
  have hback := (ofList_by_pieces []).2.2 [("b", false), ("a", true)] (by decide)
  refine ⟨?_, hnone.1.2 ⟨" :b".toList, by decide +kernel, by decide +kernel⟩, hback ?_⟩
  · rcases hmany.2 (by decide +kernel) with ⟨rules, hread, hfallback, hnamed⟩
    refine ⟨rules, hread, hfallback, ?_⟩
    rw [hnamed, hnamed, hnamed]
    decide +kernel
  · intro entry hentry
    simp only [List.mem_cons, List.not_mem_nil, or_false] at hentry
    rcases hentry with rfl | rfl <;> refine ⟨by decide, ?_, ?_, by decide, by decide⟩
    all_goals
      rintro c ⟨⟩
      decide

end RuleSet

end HtmlLint
