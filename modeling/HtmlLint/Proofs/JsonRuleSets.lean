import HtmlLint.Proofs.Bytes.Utf8
import HtmlLint.Proofs.JsonReading
import HtmlLint.Proofs.RuleLists

/-!
# Rule sets in JSON

An object is read by the last value of each of its names, and the names are looked at in the order
of their bytes, not in the order in which they stand. So the name that is reported when a value is
neither true nor false does not depend on how the object was written.

* `Text.bytes_lt_bytes` — names that are sorted by character are sorted by byte.
* `Json.switchesText_iff_written` — the forms in which names with truth values can be written.
* `Offends`, `FirstOffence` — a name with such a value, and the least of them.
* `ofJson_of_switchesText` — a finite map is read back from any text that it can be written as.
* `ofJson_by_last_values` — what every text is read as.
-/

namespace HtmlLint

namespace Text

/-! ## The order of bytes -/

theorem encode_append_lt {c d : Char} (h : c < d) (x y : List UInt8) :
    String.utf8EncodeChar c ++ x < String.utf8EncodeChar d ++ y := by
  have hlt : c.val.toNat < d.val.toNat := h
  have hvalid : d.val.toNat < 0xD800 ∨ 0xDFFF < d.val.toNat ∧ d.val.toNat < 0x110000 := d.valid
  have htwice : ∀ v : Nat, v / 0x1000 = v / 0x40 / 0x40 := by omega
  have hthrice : ∀ v : Nat, v / 0x40000 = v / 0x40 / 0x40 / 0x40 := by omega
  -- a longer form has a larger lead byte; in two forms of one length the bytes are digits to the
  -- base 64, and the first one that differs decides
  fun_cases String.utf8EncodeChar c <;> fun_cases String.utf8EncodeChar d
  all_goals
    simp only [List.cons_append, List.cons_lt_cons_iff, UInt8.lt_iff_toNat_lt, ← UInt8.toNat_inj,
      UInt8.toNat_ofNat', htwice, hthrice]
    omega

/-- Texts are in the same order by their characters and by their bytes. -/
theorem bytes_lt_bytes {s t : List Char} (h : s < t) : bytes s < bytes t := by
  induction h with
  | @nil c t =>
    -- the end of a text comes before any character, and each character has a byte
    have hne : String.utf8EncodeChar c ≠ [] := String.utf8EncodeChar_ne_nil
    rcases List.exists_cons_of_ne_nil hne with ⟨b, more, hbytes⟩
    rw [bytes_cons, hbytes]
    exact List.nil_lt_cons b _
  | cons _ ih =>
    rw [bytes_cons, bytes_cons]
    exact List.append_left_lt ih
  | rel h =>
    rw [bytes_cons, bytes_cons]
    exact encode_append_lt h _ _

end Text

namespace Json

/-! ## Objects of switches in all their written forms -/

/-- A name with a truth value, as a member of an object. -/
def asMember (entry : List Char × Bool) : List Char × Json :=
  (entry.1, .bool entry.2)

/-- A name, a colon and a truth value, with space around them. -/
inductive MemberText : List Char → List Char × Bool → Prop where
  | mk {before name behind lead after : List Char} {s : List Char} (value : Bool)
      (hbefore : Gap before) (hname : Spells name s) (hbehind : Gap behind) (hlead : Gap lead)
      (hafter : Gap after) :
      MemberText (before ++ '"' :: (name ++ '"' :: (behind ++ ':' :: (lead ++ (switchWord value
        ++ after))))) (s, value)

/-- Members with commas between them. -/
inductive MembersText : List Char → List (List Char × Bool) → Prop where
  | last {text : List Char} {entry : List Char × Bool} (h : MemberText text entry) :
      MembersText text [entry]
  | cons {text more : List Char} {entry : List Char × Bool} {entries : List (List Char × Bool)}
      (h : MemberText text entry) (hmore : MembersText more entries) :
      MembersText (text ++ ',' :: more) (entry :: entries)

/-- An object whose members are true or false, with space around it. -/
inductive SwitchesText : List Char → List (List Char × Bool) → Prop where
  | empty {before inside after : List Char} (hbefore : Gap before) (hinside : Gap inside)
      (hafter : Gap after) :
      SwitchesText (before ++ '\x7b' :: (inside ++ '\x7d' :: after)) []
  | members {before text after : List Char} {entries : List (List Char × Bool)}
      (hbefore : Gap before) (h : MembersText text entries) (hafter : Gap after) :
      SwitchesText (before ++ '\x7b' :: (text ++ '\x7d' :: after)) entries

section written

variable {admitted : Nat → Prop} {depth : Nat} {text : List Char}

theorem memberText_iff_written {entry : List Char × Bool} :
    MemberText text entry ↔ Written admitted depth (.member (asMember entry)) text := by
  constructor
  · rintro ⟨value, hbefore, hname, hbehind, hlead, hafter⟩
    exact .named hbefore hname hbehind (.spaced hlead (.bool depth value) hafter)
  · intro h
    cases h with
    | named hbefore hname hbehind hvalue =>
      cases hvalue with
      | spaced hlead hword hafter =>
        cases hword
        exact .mk entry.2 hbefore hname hbehind hlead hafter

theorem membersText_iff_written {entries : List (List Char × Bool)} :
    MembersText text entries
      ↔ Written admitted depth (.members (entries.map asMember)) text := by
  constructor
  · intro h
    induction h with
    | last hmember => exact .lastMember (memberText_iff_written.1 hmember)
    | cons hmember _ ih => exact .moreMembers (memberText_iff_written.1 hmember) ih
  · intro h
    -- the list of members is the image of the entries, so its parts are images too
    generalize hpart : Part.members (entries.map asMember) = part at h
    induction h generalizing entries with
    | lastMember hmember =>
      rcases List.map_eq_singleton_iff.1 (Part.members.inj hpart) with ⟨entry, rfl, rfl⟩
      exact .last (memberText_iff_written.2 hmember)
    | moreMembers hmember _ _ ih =>
      rcases List.map_eq_cons_iff.1 (Part.members.inj hpart) with ⟨entry, others, rfl, rfl, rfl⟩
      exact .cons (memberText_iff_written.2 hmember) (ih rfl)
    | _ => cases hpart

/-- The texts of switches are the written forms of the object that they are. -/
theorem switchesText_iff_written {entries : List (List Char × Bool)} :
    SwitchesText text entries
      ↔ Written admitted (depth + 1) (.value (.object (entries.map asMember))) text := by
  constructor
  · intro h
    cases h with
    | empty hbefore hinside hafter =>
      simpa using Written.spaced hbefore (.noMembers depth hinside) hafter
    | members hbefore hmembers hafter =>
      simpa using Written.spaced hbefore (.object (membersText_iff_written.1 hmembers)) hafter
  · intro h
    cases h with
    | spaced hbefore hobject hafter =>
      generalize hmembers : entries.map asMember = members at hobject
      cases hobject with
      | noMembers _ hinside =>
        obtain rfl : entries = [] := List.map_eq_nil_iff.1 hmembers
        simpa using SwitchesText.empty hbefore hinside hafter
      | object hwritten =>
        rw [← hmembers] at hwritten
        simpa using SwitchesText.members hbefore (membersText_iff_written.2 hwritten) hafter

/-- However an object of switches is written, it is read as its members in their order. -/
theorem SwitchesText.read {entries : List (List Char × Bool)} (h : SwitchesText text entries) :
    Json.read text = .ok (.object (entries.map asMember)) :=
  Written.read (switchesText_iff_written.1 h)

/-- In either layout, an object of switches is one of its written forms. -/
theorem switchesText_render (layout : Layout) (entries : List (List Char × Bool)) :
    SwitchesText (render layout 0 (.object (entries.map asMember))) entries := by
  have hobject : Written (fun _ => True) 1 (.bare (.object (entries.map asMember)))
      (render layout 0 (.object (entries.map asMember))) := by
    refine written_object ?_
    intro member hmember
    rcases List.mem_map.1 hmember with ⟨entry, -, rfl⟩
    exact written_bool entry.2
  have hspaced := Written.spaced gap_nil hobject gap_nil
  rw [List.nil_append, List.append_nil] at hspaced
  exact switchesText_iff_written.2 hspaced

end written

end Json

namespace RuleSet

/-! ## Values that are no switches -/

/-- The last value of the name is neither true nor false. -/
def Offends (members : List (List Char × Json)) (key : String) : Prop :=
  ∃ value, lastOf? members key.toList = some value ∧ bool? value = none

/-- The name has such a value, and the bytes of all others that have one come later. -/
structure FirstOffence (members : List (List Char × Json)) (key : String) : Prop where
  offends : Offends members key
  first : ∀ other, Offends members other →
    other = key ∨ Text.bytes key.toList < Text.bytes other.toList

theorem lastValues_sorted (members : List (List Char × Json)) :
    (lastValues members).Pairwise
      fun a b => Text.bytes a.1.toList < Text.bytes b.1.toList := by
  refine Std.TreeMap.ordered_keys_toList.imp ?_
  intro a b hlt
  have hnames : a.1 < b.1 := compareOfLessAndEq_eq_lt.1 hlt
  exact Text.bytes_lt_bytes hnames

theorem mem_lastValues_iff {members : List (List Char × Json)} {key : String} {value : Json} :
    (key, value) ∈ lastValues members ↔ lastOf? members key.toList = some value := by
  have hdistinct : (lastValues members).Pairwise (·.1 ≠ ·.1) := distinct_names _
  rw [← lastOf?_lastValues, lastOf?_eq_some_iff hdistinct]

/-- The names of the values that are neither true nor false, in their order. -/
def offences (values : List (String × Json)) : List String :=
  (values.filter fun m => (bool? m.2).isNone).map (·.1)

theorem mem_offences_iff {members : List (List Char × Json)} {key : String} :
    key ∈ offences (lastValues members) ↔ Offends members key := by
  simp [offences, Offends, mem_lastValues_iff]

instance (members : List (List Char × Json)) (key : String) : Decidable (Offends members key) :=
  decidable_of_iff (key ∈ offences (lastValues members)) mem_offences_iff

theorem firstOffence_of_offences {members : List (List Char × Json)} {key : String}
    {others : List String} (h : offences (lastValues members) = key :: others) :
    FirstOffence members key := by
  have hsorted : (offences (lastValues members)).Pairwise
      fun a b => Text.bytes a.toList < Text.bytes b.toList :=
    List.pairwise_map.2 ((lastValues_sorted members).filter _)
  rw [h] at hsorted
  refine ⟨mem_offences_iff.1 (by simp [h]), ?_⟩
  intro other hother
  rw [← mem_offences_iff, h] at hother
  rcases List.mem_cons.1 hother with rfl | hlater
  · exact .inl rfl
  · exact .inr (List.rel_of_pairwise_cons hsorted hlater)

/-- The first value that is no switch stops the reading. -/
theorem mapM_switch_of_offences {values : List (String × Json)} {key : String}
    {others : List String} (h : offences values = key :: others) :
    values.mapM switch = .error (.invalidValue key) := by
  induction values with
  | nil => cases h
  | cons first values ih =>
    rcases first with ⟨id, value⟩
    cases value with
    | bool enabled =>
      -- a switch is no offence, so the list of offences stays as it is
      rw [List.mapM_cons, ih h]
      rfl
    | _ =>
      cases h
      rfl

theorem exists_mapM_switch {values : List (String × Json)} (h : offences values = []) :
    ∃ entries, values.mapM switch = .ok entries := by
  induction values with
  | nil => exact ⟨[], rfl⟩
  | cons first values ih =>
    rcases first with ⟨id, value⟩
    cases value with
    | bool enabled =>
      rcases ih h with ⟨entries, hentries⟩
      exact ⟨(id, enabled) :: entries, by rw [List.mapM_cons, hentries]; rfl⟩
    | _ => cases h

/-! ## Objects -/

theorem ofValue_of_offends {members : List (List Char × Json)} (h : ∃ key, Offends members key) :
    ∃ key, FirstOffence members key
      ∧ ofValue (.object members) = .error (.invalidValue key) := by
  rcases h with ⟨key, hkey⟩
  rcases List.exists_cons_of_ne_nil (List.ne_nil_of_mem (mem_offences_iff.2 hkey)) with
    ⟨first, others, hoffences⟩
  refine ⟨first, firstOffence_of_offences hoffences, ?_⟩
  rw [ofValue, mapM_switch_of_offences hoffences]
  rfl

theorem ofValue_of_switches {members : List (List Char × Json)}
    (h : ∀ key, ¬ Offends members key) :
    ∃ rules, ofValue (.object members) = .ok rules ∧ rules.fallback = false
      ∧ ∀ (id : String) (b : Bool),
        rules.named[id]? = some b ↔ lastOf? members id.toList = some (.bool b) := by
  have hnone : offences (lastValues members) = [] :=
    List.eq_nil_iff_forall_not_mem.2 fun key hkey => h key (mem_offences_iff.1 hkey)
  rcases exists_mapM_switch hnone with ⟨entries, hentries⟩
  refine ⟨off.setAll entries, ?_, fallback_setAll off entries, ?_⟩
  · rw [ofValue, hentries]
    rfl
  · intro id b
    have hnamed := says?_off_setAll entries id
    rw [says?] at hnamed
    rw [hnamed, ← lastOf?_lastValues, eq_map_of_mapM_switch hentries, lastOf?_map_bool]
    simp

theorem ofValue_eq_notAnObject_iff {value : Json} :
    ofValue value = .error .notAnObject ↔ ∀ members, value ≠ .object members := by
  cases value with
  | object members =>
    constructor
    · intro hrefused
      by_cases hbad : ∃ key, Offends members key
      · rcases ofValue_of_offends hbad with ⟨key, -, hread⟩
        rw [hread] at hrefused
        cases hrefused
      · rcases ofValue_of_switches (not_exists.1 hbad) with ⟨rules, hread, -⟩
        rw [hread] at hrefused
        cases hrefused
    · intro hother
      exact absurd rfl (hother members)
  | _ =>
    refine ⟨?_, fun _ => rfl⟩
    intro _ members hobject
    cases hobject

/-! ## Written maps -/

/-- The entries with their ids as characters. -/
def inCharacters (entries : List (String × Bool)) : List (List Char × Bool) :=
  entries.map fun (id, enabled) => (id.toList, enabled)

theorem mem_asMember_iff {entries : List (String × Bool)} {id : String} {value : Json} :
    (id.toList, value) ∈ (inCharacters entries).map Json.asMember
      ↔ ∃ b, (id, b) ∈ entries ∧ value = .bool b := by
  simp only [inCharacters, List.map_map, List.mem_map, Function.comp_apply, Json.asMember,
    Prod.mk.injEq, String.toList_inj]
  constructor
  · rintro ⟨⟨_, b⟩, hmem, rfl, rfl⟩
    exact ⟨b, hmem, rfl⟩
  · rintro ⟨b, hmem, rfl⟩
    exact ⟨(id, b), hmem, rfl, rfl⟩

/-- Members with distinct names are the last ones of their names. -/
theorem lastOf?_asMember {entries : List (String × Bool)}
    (hdistinct : (entries.map (·.1)).Nodup) {id : String} {value : Json} :
    lastOf? ((inCharacters entries).map Json.asMember) id.toList = some value
      ↔ ∃ b, (id, b) ∈ entries ∧ value = .bool b := by
  have hnames : ((inCharacters entries).map Json.asMember).Pairwise (·.1 ≠ ·.1) := by
    refine List.pairwise_map.2 (List.pairwise_map.2 ?_)
    exact (List.pairwise_map.1 hdistinct).imp fun hne heq => hne (String.toList_inj.1 heq)
  rw [lastOf?_eq_some_iff hnames, mem_asMember_iff]

/-- Entries with distinct ids are read back from any text that they can be written as. -/
theorem ofJson_of_switchesText {entries : List (String × Bool)}
    (hdistinct : (entries.map (·.1)).Nodup) {text : List Char}
    (h : Json.SwitchesText text (inCharacters entries)) :
    ∃ rules, ofJson text = .ok rules ∧ rules.fallback = false ∧ rules.entries.Perm entries := by
  have hgood : ∀ key, ¬ Offends ((inCharacters entries).map Json.asMember) key := by
    rintro key ⟨value, hvalue, hnone⟩
    rcases (lastOf?_asMember hdistinct).1 hvalue with ⟨b, -, rfl⟩
    cases hnone
  rcases ofValue_of_switches hgood with ⟨rules, hread, hfallback, hnamed⟩
  refine ⟨rules, ?_, hfallback, entries_perm hdistinct ?_⟩
  · rw [ofJson, h.read]
    exact hread
  · intro id b
    rw [says?, hnamed, lastOf?_asMember hdistinct]
    simp

/-! ## Every text -/

/-- What a text is read as that holds a JSON value. It is refused as no object exactly if the value
is none. An object in which the last value of some name is neither true nor false is refused for the
one of these names that has the least bytes; any other object is read as the set that switches just
its names, each by its last value, and leaves all other rules off. So a finite map is read back from
whatever text it is written as, with its members in any order. -/
theorem ofJson_by_last_values (s : List Char) :
    (∀ value, Json.read s = .ok value →
      (ofJson s = .error .notAnObject ↔ ∀ members, value ≠ .object members)
        ∧ ∀ members, value = .object members →
          ((∃ key, Offends members key) →
            ∃ key, FirstOffence members key ∧ ofJson s = .error (.invalidValue key))
          ∧ ((∀ key, ¬ Offends members key) →
            ∃ rules, ofJson s = .ok rules ∧ rules.fallback = false
              ∧ ∀ (id : String) (b : Bool),
                rules.named[id]? = some b ↔ lastOf? members id.toList = some (.bool b)))
      ∧ ∀ entries : List (String × Bool), (entries.map (·.1)).Nodup →
        (∀ layout, Json.SwitchesText
          (Json.render layout 0 (.object ((inCharacters entries).map Json.asMember)))
          (inCharacters entries))
        ∧ ∀ text, Json.SwitchesText text (inCharacters entries) →
          ∃ rules, ofJson text = .ok rules ∧ rules.fallback = false
            ∧ rules.entries.Perm entries := by
  refine ⟨?_, ?_⟩
  · intro value hvalue
    have hread : ofJson s = ofValue value := by rw [ofJson, hvalue]
    rw [hread]
    refine ⟨ofValue_eq_notAnObject_iff, ?_⟩
    rintro members rfl
    exact ⟨ofValue_of_offends, ofValue_of_switches⟩
  · intro entries hdistinct
    exact ⟨fun layout => Json.switchesText_render layout _,
      fun text htext => ofJson_of_switchesText hdistinct htext⟩

/-- In the first text the last value of `a` is true, and of the names `z` and `b` the second is
reported although it stands last. In the second text only the first value of `b` is no switch. -/
theorem ofJson_least_offence :
    ofJson "\x7b\"z\":0,\"a\":null,\"b\":true,\"a\":true,\"\\u0062\":[]\x7d".toList
        = .error (.invalidValue "b")
      ∧ (∃ rules, ofJson "\x7b\"b\":0, \"a\":true,\"b\":false\x7d".toList = .ok rules
        ∧ rules.fallback = false ∧ rules.named["a"]? = some true
        ∧ rules.named["b"]? = some false)
      ∧ ∃ rules, ofJson "\x7b\"b\":false,\"\\\"\":true\x7d".toList = .ok rules
        ∧ rules.fallback = false ∧ rules.entries.Perm [("b", false), ("\"", true)] := by
  refine ⟨?_, ?_, ?_⟩
  · let members : List (List Char × Json) :=
      [(['z'], .number ['0']), (['a'], .null), (['b'], .bool true), (['a'], .bool true),
        (['b'], .array [])]
    have hobject : Json.read
        "\x7b\"z\":0,\"a\":null,\"b\":true,\"a\":true,\"\\u0062\":[]\x7d".toList
        = .ok (.object members) := rfl
    have hall : offences (lastValues members) = ["b", "z"] := rfl
    rcases ((ofJson_by_last_values _).1 _ hobject).2 _ rfl with ⟨hrefused, -⟩
    have hb : Offends members "b" := by decide +kernel
    rcases hrefused ⟨"b", hb⟩ with ⟨key, hfirst, hread⟩
    have hkey := mem_offences_iff.2 hfirst.offends
    simp only [hall, List.mem_cons, List.not_mem_nil, or_false] at hkey
    rcases hkey with rfl | rfl
    · exact hread
    · rcases hfirst.first "b" hb with heq | hlt
      · exact absurd heq (by decide)
      · exact absurd hlt (by decide)
  · let members : List (List Char × Json) :=
      [(['b'], .number ['0']), (['a'], .bool true), (['b'], .bool false)]
    have hobject : Json.read "\x7b\"b\":0, \"a\":true,\"b\":false\x7d".toList
        = .ok (.object members) := rfl
    have hnone : offences (lastValues members) = [] := rfl
    rcases ((ofJson_by_last_values _).1 _ hobject).2 _ rfl with ⟨-, hset⟩
    rcases hset fun key hkey => by simpa [hnone] using mem_offences_iff.2 hkey with
      ⟨rules, hread, hfallback, hnamed⟩
    exact ⟨rules, hread, hfallback, (hnamed "a" true).2 rfl, (hnamed "b" false).2 rfl⟩
  · have htext : "\x7b\"b\":false,\"\\\"\":true\x7d".toList = Json.render .compact 0
        (.object ((inCharacters [("b", false), ("\"", true)]).map Json.asMember)) := rfl
    rcases (ofJson_by_last_values []).2 [("b", false), ("\"", true)] (by decide) with
      ⟨hwritten, hback⟩
    rw [htext]
    exact hback _ (hwritten .compact)

end RuleSet

end HtmlLint
