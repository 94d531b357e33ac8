import HtmlLint.Text.Split

/-!
# Where markup opens

A `<` opens markup when `!`, `?`, a letter, or `/` and a letter follow it; any other `<` is text.
The text that opens each form of markup is fixed, and `opening?` recognises it together with what
comes after it.

Markup separates its parts with space, tab, line feed, form feed and carriage return only.
-/

namespace HtmlLint

/-- A character that separates the parts of a tag. -/
def isSpace (c : Char) : Bool :=
  c == ' ' || c == '\t' || c == '\n' || c == '\x0c' || c == '\r'

/-- A character that ends the name of a tag. -/
def endsTagName (c : Char) : Bool :=
  isSpace c || c == '/' || c == '>'

/-- A character that ends the name of an attribute. -/
def endsAttributeName (c : Char) : Bool :=
  endsTagName c || c == '='

/-- The forms of markup. -/
inductive Opening where
  | comment
  | cdata
  | conditional
  | declaration
  /-- Markup that starts with `<?` is read as a comment. -/
  | instruction
  | endTag
  | startTag
  deriving DecidableEq, Repr

namespace Opening

/-- The text that opens the markup. -/
def text : Opening → List Char
  | comment => ['<', '!', '-', '-']
  | cdata => ['<', '!', '[', 'C', 'D', 'A', 'T', 'A', '[']
  | conditional => ['<', '!', '[']
  | declaration => ['<', '!']
  | instruction => ['<']
  | endTag => ['<', '/']
  | startTag => ['<']

/-- Tells apart the forms that start with `<!`, of which `s` is the rest. -/
def afterBang (s : List Char) : Opening × List Char :=
  match Text.after? ['-', '-'] s with
  | some rest => (comment, rest)
  | none =>
    match Text.after? ['[', 'C', 'D', 'A', 'T', 'A', '['] s with
    | some rest => (cdata, rest)
    | none =>
      match Text.after? ['['] s with
      | some rest => (conditional, rest)
      | none => (declaration, s)

end Opening

/-- `s` starts with a letter from A to Z, in either case. -/
def startsWithLetter : List Char → Bool
  | c :: _ => c.isAlpha
  | [] => false

/-- The markup that opens at the start of `s`, and what follows its opening text. -/
def opening? : List Char → Option (Opening × List Char)
  | '<' :: c :: s =>
    if c = '!' then some (Opening.afterBang s)
    else if c = '?' then some (.instruction, c :: s)
    else if c = '/' then if startsWithLetter s then some (.endTag, s) else none
    else if c.isAlpha then some (.startTag, c :: s)
    else none
  | _ => none

/-- Markup opens at the start of `s`. -/
def opensMarkup (s : List Char) : Bool :=
  (opening? s).isSome

/-- A tag that is still open ends at the start of `s`: at `>`, or because other markup opens. -/
def atTagBoundary (s : List Char) : Bool :=
  s.head? == some '>' || opensMarkup s

theorem Opening.afterBang_append (s : List Char) :
    ['<', '!'] ++ s = (afterBang s).1.text ++ (afterBang s).2 := by
  rw [afterBang]
  split
  · next rest h => rw [Text.after?_eq_some_iff.1 h]; rfl
  · split
    · next rest h => rw [Text.after?_eq_some_iff.1 h]; rfl
    · split
      · next rest h => rw [Text.after?_eq_some_iff.1 h]; rfl
      · rfl

/-- The opening text and what follows it make up the whole. -/
theorem opening?_append {s rest : List Char} {o : Opening} (h : opening? s = some (o, rest)) :
    s = o.text ++ rest := by
  unfold opening? at h
  split at h
  · next c s =>
    by_cases bang : c = '!'
    · have parts : Opening.afterBang s = (o, rest) := by simpa [bang] using h
      have whole := Opening.afterBang_append s
      rw [parts] at whole
      simpa [bang] using whole
    · by_cases mark : c = '?'
      · obtain ⟨rfl, rfl⟩ : Opening.instruction = o ∧ c :: s = rest := by
          simpa [mark] using h
        rfl
      · by_cases slash : c = '/'
        · obtain ⟨_, rfl, rfl⟩ : startsWithLetter s = true ∧ Opening.endTag = o ∧ s = rest := by
            simpa [slash] using h
          rw [slash]
          rfl
        · obtain ⟨_, rfl, rfl⟩ : c.isAlpha = true ∧ Opening.startTag = o ∧ c :: s = rest := by
            simpa [bang, mark, slash] using h
          rfl
  · cases h

/-- No markup opens at the end of a document. -/
@[simp]
theorem opensMarkup_nil : opensMarkup [] = false := rfl

theorem opening?_letter {c : Char} (h : c.isAlpha = true) (s : List Char) :
    opening? ('<' :: c :: s) = some (.startTag, c :: s) := by
  have hbang : c ≠ '!' := by rintro rfl; simp at h
  have hmark : c ≠ '?' := by rintro rfl; simp at h
  have hslash : c ≠ '/' := by rintro rfl; simp at h
  simp [opening?, hbang, hmark, hslash, h]

theorem opensMarkup_of_ne {c : Char} (h : c ≠ '<') (s : List Char) :
    opensMarkup (c :: s) = false := by
  unfold opensMarkup opening?
  split
  · next d r heq => exact absurd (List.cons.inj heq).1 h
  · rfl

/-- What has to follow a `<` for it to open markup. -/
theorem opensMarkup_bracket (d : Char) (s : List Char) :
    opensMarkup ('<' :: d :: s) =
      (d == '!' || d == '?' || d == '/' && startsWithLetter s || d.isAlpha) := by
  by_cases hbang : d = '!'
  · simp [opensMarkup, opening?, hbang]
  by_cases hmark : d = '?'
  · simp [opensMarkup, opening?, hmark]
  by_cases hslash : d = '/'
  · cases hletter : startsWithLetter s <;> simp [opensMarkup, opening?, hslash, hletter]
  · cases hletter : d.isAlpha <;> simp [opensMarkup, opening?, hbang, hmark, hslash, hletter]

/-- Text still opens no markup before a `<`. -/
theorem opensMarkup_append_bracket {b : List Char} (hne : b ≠ []) (hb : opensMarkup b = false)
    (r : List Char) : opensMarkup (b ++ '<' :: r) = false := by
  rcases b with _ | ⟨c, _ | ⟨d, b⟩⟩
  · exact absurd rfl hne
  · by_cases hc : c = '<'
    · simp [hc, opensMarkup_bracket]
    · exact opensMarkup_of_ne hc _
  · by_cases hc : c = '<'
    · subst hc
      have hletter : startsWithLetter (b ++ '<' :: r) = startsWithLetter b := by
        cases b with
        | nil => simp [startsWithLetter]
        | cons e b => rfl
      simpa [opensMarkup_bracket, hletter] using hb
    · exact opensMarkup_of_ne hc _

theorem exists_bracket_of_opensMarkup {s : List Char} (h : opensMarkup s = true) :
    ∃ r, s = '<' :: r := by
  cases s with
  | nil => cases h
  | cons c s =>
    by_cases hc : c = '<'
    · exact ⟨s, by rw [hc]⟩
    · rw [opensMarkup_of_ne hc] at h
      cases h

end HtmlLint
