import HtmlLint.Json.Basic

/-!
# Written forms of JSON values

A value can be written in many ways: there can be space between its parts, and each character of a
string can stand for itself or be escaped, in up to three forms. The grammar here has one
constructor for each form. Of the numbers, it has the natural ones. Both layouts of the writer are
forms of the grammar.

* `Spells` — a text between quotes, and the string that it stands for.
* `Written` — a text, and the value, or the part of one, that it stands for.
* `written_array`, `written_object` — the writer keeps to the grammar.
-/

namespace HtmlLint.Json

/-! ## Strings in all their written forms -/

/-- The digit is that of `v`, in either case. -/
def IsHexDigit (c : Char) (v : Nat) : Prop :=
  v < 10 ∧ c.toNat = 48 + v ∨ 10 ≤ v ∧ v < 16 ∧ (c.toNat = 55 + v ∨ c.toNat = 87 + v)

/-- Four digits that stand for a number. -/
inductive HexCode : List Char → Nat → Prop where
  | mk {a b c d : Char} {i j k l : Nat} (ha : IsHexDigit a i) (hb : IsHexDigit b j)
      (hc : IsHexDigit c k) (hd : IsHexDigit d l) :
      HexCode [a, b, c, d] (((i * 16 + j) * 16 + k) * 16 + l)

/-- The characters that can follow a backslash, and what they stand for. -/
def shortForms : List (Char × Char) :=
  [('"', '"'), ('\\', '\\'), ('/', '/'), ('b', '\x08'), ('f', '\x0c'), ('n', '\n'), ('r', '\r'),
    ('t', '\t')]

/-- What follows a backslash, and the character that it stands for. -/
inductive Escape : List Char → Char → Prop where
  | short {e c : Char} (h : (e, c) ∈ shortForms) : Escape [e] c
  | code {digits : List Char} {c : Char} (h : HexCode digits c.toNat) : Escape ('u' :: digits) c
  /-- A character past the first 65536 is written in two halves of ten bits. -/
  | pair {first second : List Char} {high low : Nat} {c : Char} (hhigh : high < 0x400)
      (hlow : low < 0x400) (hfirst : HexCode first (0xD800 + high))
      (hsecond : HexCode second (0xDC00 + low)) (hc : c.toNat = 0x10000 + high * 0x400 + low) :
      Escape ('u' :: (first ++ '\\' :: 'u' :: second)) c

/-- A text between quotes, and the string that it stands for. -/
inductive Spells : List Char → List Char → Prop where
  | nil : Spells [] []
  | plain {c : Char} {text s : List Char} (hcontrol : 0x20 ≤ c.toNat) (hquote : c ≠ '"')
      (hslash : c ≠ '\\') (h : Spells text s) : Spells (c :: text) (c :: s)
  | escape {e text s : List Char} {c : Char} (he : Escape e c) (h : Spells text s) :
      Spells ('\\' :: (e ++ text)) (c :: s)

/-! ## Values in all their written forms -/

/-- Space between the parts of a text. -/
def Gap (s : List Char) : Prop :=
  ∀ c ∈ s, c ∈ [' ', '\n', '\t', '\r']

/-- The word for a truth value. -/
def switchWord : Bool → List Char
  | true => ['t', 'r', 'u', 'e']
  | false => ['f', 'a', 'l', 's', 'e']

/-- What a text can stand for. -/
inductive Part where
  /-- A value without space around it. -/
  | bare (value : Json)
  | value (value : Json)
  /-- What stands between the brackets of an array that is not empty. -/
  | items (items : List Json)
  | member (member : List Char × Json)
  /-- What stands between the braces of an object that is not empty. -/
  | members (members : List (List Char × Json))

/-- A text, and what it stands for. Arrays and objects are nested at most as deep as the first
number says, and all numbers in them are natural ones that are admitted. -/
inductive Written (admitted : Nat → Prop) : Nat → Part → List Char → Prop where
  | null (depth : Nat) : Written admitted depth (.bare .null) ['n', 'u', 'l', 'l']
  | bool (depth : Nat) (b : Bool) : Written admitted depth (.bare (.bool b)) (switchWord b)
  | number (depth : Nat) {n : Nat} (h : admitted n) :
      Written admitted depth (.bare (.number (Nat.toDigits 10 n))) (Nat.toDigits 10 n)
  | string (depth : Nat) {text s : List Char} (h : Spells text s) :
      Written admitted depth (.bare (.string s)) ('"' :: (text ++ ['"']))
  | noItems (depth : Nat) {inside : List Char} (h : Gap inside) :
      Written admitted (depth + 1) (.bare (.array [])) ('[' :: (inside ++ [']']))
  | array {depth : Nat} {text : List Char} {items : List Json}
      (h : Written admitted depth (.items items) text) :
      Written admitted (depth + 1) (.bare (.array items)) ('[' :: (text ++ [']']))
  | noMembers (depth : Nat) {inside : List Char} (h : Gap inside) :
      Written admitted (depth + 1) (.bare (.object [])) ('\x7b' :: (inside ++ ['\x7d']))
  | object {depth : Nat} {text : List Char} {members : List (List Char × Json)}
      (h : Written admitted depth (.members members) text) :
      Written admitted (depth + 1) (.bare (.object members)) ('\x7b' :: (text ++ ['\x7d']))
  | spaced {depth : Nat} {before text after : List Char} {value : Json} (hbefore : Gap before)
      (h : Written admitted depth (.bare value) text) (hafter : Gap after) :
      Written admitted depth (.value value) (before ++ (text ++ after))
  | lastItem {depth : Nat} {text : List Char} {item : Json}
      (h : Written admitted depth (.value item) text) : Written admitted depth (.items [item]) text
  | moreItems {depth : Nat} {text more : List Char} {item : Json} {items : List Json}
      (h : Written admitted depth (.value item) text)
      (hmore : Written admitted depth (.items items) more) :
      Written admitted depth (.items (item :: items)) (text ++ ',' :: more)
  | named {depth : Nat} {before name behind text s : List Char} {value : Json}
      (hbefore : Gap before) (hname : Spells name s) (hbehind : Gap behind)
      (h : Written admitted depth (.value value) text) :
      Written admitted depth (.member (s, value))
        (before ++ '"' :: (name ++ '"' :: (behind ++ ':' :: text)))
  | lastMember {depth : Nat} {text : List Char} {member : List Char × Json}
      (h : Written admitted depth (.member member) text) :
      Written admitted depth (.members [member]) text
  | moreMembers {depth : Nat} {text more : List Char} {member : List Char × Json}
      {members : List (List Char × Json)} (h : Written admitted depth (.member member) text)
      (hmore : Written admitted depth (.members members) more) :
      Written admitted depth (.members (member :: members)) (text ++ ',' :: more)

/-! ## Writing values -/

theorem gap_nil : Gap [] :=
  List.forall_mem_nil _

theorem isHexDigit_hexDigit (n : Nat) : IsHexDigit (hexDigit n) (n % 16) := by
  have hall : ∀ v < 16, IsHexDigit (Nat.digitChar v) v := by
    unfold IsHexDigit
    decide
  exact hall (n % 16) (Nat.mod_lt n (by decide))

/-- Four digits are enough for a control character. -/
theorem hexCode_of_lt {n : Nat} (h : n < 0x20) :
    HexCode ['0', '0', hexDigit (n / 16), hexDigit n] n := by
  have hzero : IsHexDigit '0' 0 := .inl ⟨by decide, rfl⟩
  have hcode : ((0 * 16 + 0) * 16 + n / 16 % 16) * 16 + n % 16 = n := by omega
  have hmk := HexCode.mk hzero hzero (isHexDigit_hexDigit (n / 16)) (isHexDigit_hexDigit n)
  rwa [hcode] at hmk

theorem Spells.escapedChar {text s : List Char} (h : Spells text s) (c : Char) :
    Spells (Json.escapedChar c ++ text) (c :: s) := by
  fun_cases Json.escapedChar c with
  | case8 _ _ _ _ _ _ _ hcontrol => exact .escape (.code (hexCode_of_lt hcontrol)) h
  | case9 hquote hslash _ _ _ _ _ hcontrol =>
    exact .plain (Nat.le_of_not_lt hcontrol) hquote hslash h
  | _ =>
    subst_vars
    exact .escape (.short (by decide)) h

theorem spells_flatMap_escapedChar (s : List Char) : Spells (s.flatMap escapedChar) s := by
  induction s with
  | nil => exact .nil
  | cons c s ih => exact ih.escapedChar c

theorem gap_newline (layout : Layout) (level : Nat) : Gap (layout.newline level) := by
  cases layout with
  | compact => exact gap_nil
  | indented =>
    intro c hc
    rcases List.mem_cons.1 hc with rfl | hspace
    · decide
    · rw [List.eq_of_mem_replicate hspace]
      decide

theorem exists_colon_eq (layout : Layout) : ∃ lead, Gap lead ∧ layout.colon = ':' :: lead := by
  cases layout with
  | compact => exact ⟨[], gap_nil, rfl⟩
  | indented => exact ⟨[' '], List.forall_mem_singleton.2 (by decide), rfl⟩

theorem enclose_of_ne_nil (layout : Layout) (level : Nat) (opener closer : Char)
    {parts : List (List Char)} (h : parts ≠ []) :
    layout.enclose level opener closer parts
      = opener :: ((layout.newline (level + 1)
        ++ (List.intercalate (',' :: layout.newline (level + 1)) parts
          ++ layout.newline level)) ++ [closer]) := by
  cases parts with
  | nil => exact absurd rfl h
  | cons part parts => simp [Layout.enclose]

section writer

variable {admitted : Nat → Prop} {layout : Layout} {depth level : Nat}

theorem written_bool (b : Bool) :
    Written admitted depth (.bare (.bool b)) (render layout level (.bool b)) := by
  cases b <;> exact .bool depth _

theorem written_member {before after : List Char} (hbefore : Gap before) (hafter : Gap after)
    {member : List Char × Json}
    (h : Written admitted depth (.bare member.2) (render layout level member.2)) :
    Written admitted depth (.member member)
      (before ++ (stringText member.1 ++ (layout.colon ++ render layout level member.2)
        ++ after)) := by
  rcases exists_colon_eq layout with ⟨lead, hlead, hcolon⟩
  have hmember := Written.named hbefore (spells_flatMap_escapedChar member.1) gap_nil
    (.spaced hlead h hafter)
  simpa only [stringText, hcolon, List.append_assoc, List.cons_append, List.nil_append] using
    hmember

theorem written_members {lead after : List Char} (hlead : Gap lead) (hafter : Gap after)
    {member : List Char × Json} {members : List (List Char × Json)}
    (h : ∀ m ∈ member :: members,
      Written admitted depth (.bare m.2) (render layout level m.2)) :
    Written admitted depth (.members (member :: members))
      (lead ++ (List.intercalate (',' :: lead) (renderMembers layout level (member :: members))
        ++ after)) := by
  induction members generalizing member with
  | nil =>
    have hmember := written_member hlead hafter (h member List.mem_cons_self)
    simpa [renderMembers] using Written.lastMember hmember
  | cons next members ih =>
    have hmember := written_member hlead gap_nil (h member List.mem_cons_self)
    have hmore := ih fun m hm => h m (List.mem_cons_of_mem member hm)
    simpa [renderMembers] using Written.moreMembers hmember hmore

/-- An object is laid out in one of its written forms if the values of its members are. -/
theorem written_object {members : List (List Char × Json)}
    (h : ∀ m ∈ members, Written admitted depth (.bare m.2) (render layout (level + 1) m.2)) :
    Written admitted (depth + 1) (.bare (.object members))
      (render layout level (.object members)) := by
  cases members with
  | nil =>
    rw [render, renderMembers]
    exact .noMembers depth gap_nil
  | cons member members =>
    rw [render, enclose_of_ne_nil _ _ _ _ (by simp [renderMembers])]
    exact .object (written_members (gap_newline layout (level + 1)) (gap_newline layout level) h)

end writer

end HtmlLint.Json
