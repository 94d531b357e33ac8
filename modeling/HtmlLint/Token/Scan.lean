import HtmlLint.Token.Tag

/-!
# Scanning a document

`scan` cuts a document into tokens. A cursor stands between two tokens and holds all that reading
on depends on: the offset, the text that is left, and whether the last tag opened an element with
raw content. Every step takes at least one character, so scanning ends with the document.
-/

namespace HtmlLint

/-! ## Lexemes -/

/-- A token as read, before it is placed in the document. -/
structure Lexeme where
  kind : Token.Kind
  raw : List Char
  rest : List Char
  notices : List Notice

/-- Text up to a closing text. -/
structure Enclosed where
  data : List Char
  /-- The closing text; empty when the document ends without it. -/
  close : List Char
  rest : List Char

/-- Reads up to the first occurrence of `close`. -/
def readEnclosed (close s : List Char) : Enclosed :=
  let split := Text.breakAt (Text.startsWith close) s
  match Text.after? close split.2 with
  | some rest => ⟨split.1, close, rest⟩
  | none => ⟨split.1, [], split.2⟩

/-- Reads a comment after `<!--`. A comment that is closed at once, by `>` or `->`, is empty. -/
def readComment : List Char → Enclosed
  | '>' :: rest => ⟨[], ['>'], rest⟩
  | '-' :: '>' :: rest => ⟨[], ['-', '>'], rest⟩
  | s => readEnclosed ['-', '-', '>'] s

/-- A comment that starts or ends a condition is a conditional. -/
def commentKind (data : List Char) : Token.Kind :=
  if Text.startsWith ['[', 'i', 'f'] data
      || ['<', '!', '[', 'e', 'n', 'd', 'i', 'f', ']'].isSuffixOf data then
    .conditional data
  else .comment data

/-- Markup that is a run of data between `o` and its closing text; `unclosed` is noted when the
latter is missing. -/
def Enclosed.lexeme (read : Enclosed) (o : Opening) (kind : List Char → Token.Kind)
    (unclosed : Notice) : Lexeme :=
  { kind := kind read.data
    raw := o.text ++ (read.data ++ read.close)
    rest := read.rest
    notices := if read.close = [] then [unclosed] else [] }

/-- Reads an end tag after `</`. What stands between its name and its `>` has no meaning. -/
def readEndTag (offset : Nat) (s : List Char) : Lexeme :=
  let name := s.takeWhile (!endsTagName ·)
  let split := Text.breakAt atTagBoundary (s.dropWhile (!endsTagName ·))
  let raw := Opening.endTag.text ++ (name ++ split.1)
  match split.2 with
  | '>' :: rest => ⟨.endTag name, raw ++ ['>'], rest, []⟩
  | rest => ⟨.endTag name, raw, rest, [.openEndTag offset name]⟩

/-- An end tag without its `>` runs to the boundary. -/
theorem readEndTag_open (offset : Nat) {s : List Char}
    (h : (Text.breakAt atTagBoundary (s.dropWhile (!endsTagName ·))).2.head? ≠ some '>') :
    readEndTag offset s =
      let name := s.takeWhile (!endsTagName ·)
      let split := Text.breakAt atTagBoundary (s.dropWhile (!endsTagName ·))
      ⟨.endTag name, Opening.endTag.text ++ (name ++ split.1), split.2,
        [.openEndTag offset name]⟩ := by
  unfold readEndTag
  dsimp only
  split
  · next rest hrest =>
    rw [hrest] at h
    exact absurd rfl h
  · rfl

/-- Reads a start tag after `<`. -/
def readStartTag (offset : Nat) (s : List Char) : Lexeme :=
  let name := s.takeWhile (!endsTagName ·)
  let tail := readTagTail (offset + 1 + Text.byteLength name) (s.dropWhile (!endsTagName ·))
  { kind := .startTag name tail.attributes (tail.ending == .selfClosed)
    raw := Opening.startTag.text ++ (name ++ tail.raw)
    rest := tail.rest
    notices := tail.notices ++
      match tail.ending with
      | .closed | .selfClosed => []
      | .cut => [.cutStartTag offset name]
      | .unfinished => [.openStartTag offset name] }

/-- Reads the markup opened by `o`, whose opening text starts at `offset` and is followed by `s`. -/
def readMarkup (offset : Nat) (o : Opening) (s : List Char) : Lexeme :=
  match o with
  | .comment => (readComment s).lexeme o commentKind (.openComment offset)
  | .cdata => bounded [']', ']', '>'] (.cdata · none)
  | .conditional => bounded [']', '>'] .conditional
  | .declaration => bounded ['>'] .declaration
  | .instruction => bounded ['>'] .comment
  | .endTag => readEndTag offset s
  | .startTag => readStartTag offset s
where
  /-- Markup closed by a fixed text. -/
  bounded (close : List Char) (kind : List Char → Token.Kind) : Lexeme :=
    (readEnclosed close s).lexeme o kind (.openDeclaration offset close)

/-- Reads text, which runs to the next place where markup opens. -/
def readText : List Char → Lexeme
  | [] => ⟨.text, [], [], []⟩
  | c :: s =>
    let split := Text.breakAt opensMarkup s
    ⟨.text, c :: split.1, split.2, []⟩

/-- Reads markup where it opens, and text elsewhere. -/
def readToken (offset : Nat) (s : List Char) : Lexeme :=
  match opening? s with
  | some (o, rest) => readMarkup offset o rest
  | none => readText s

/-- `s` starts with an end tag of `element`. -/
def closesElement (element : RawElement) (s : List Char) : Bool :=
  match Text.after? Opening.endTag.text s with
  | none => false
  | some s =>
    let length := element.name.length
    Text.sameIgnoringCase (s.take length) element.name && (s.drop length).head?.all endsTagName

/-- Reads the content of `element`, which may be empty. -/
def readRawText (offset : Nat) (element : RawElement) (s : List Char) : Lexeme :=
  let split := Text.breakAt (closesElement element) s
  { kind := .cdata split.1 (some element)
    raw := split.1
    rest := split.2
    notices := if split.2 = [] then [.openRawText offset element.name] else [] }

/-! ## Nothing is lost -/

theorem readEnclosed_append (close s : List Char) :
    (readEnclosed close s).data ++ ((readEnclosed close s).close ++ (readEnclosed close s).rest)
      = s := by
  have whole := Text.breakAt_append (Text.startsWith close) s
  unfold readEnclosed
  dsimp only
  split
  · next rest h =>
    rw [Text.after?_eq_some_iff.1 h] at whole
    exact whole
  · exact whole

theorem readComment_append (s : List Char) :
    (readComment s).data ++ ((readComment s).close ++ (readComment s).rest) = s := by
  unfold readComment
  split
  · rfl
  · rfl
  · exact readEnclosed_append ..

theorem Enclosed.lexeme_append (read : Enclosed) (o : Opening) (kind : List Char → Token.Kind)
    (unclosed : Notice) :
    (read.lexeme o kind unclosed).raw ++ (read.lexeme o kind unclosed).rest
      = o.text ++ (read.data ++ (read.close ++ read.rest)) := by
  simp [lexeme]

theorem readEndTag_append (offset : Nat) (s : List Char) :
    (readEndTag offset s).raw ++ (readEndTag offset s).rest = Opening.endTag.text ++ s := by
  have name := List.takeWhile_append_dropWhile (p := (!endsTagName ·)) (l := s)
  have whole := Text.breakAt_append atTagBoundary (s.dropWhile (!endsTagName ·))
  unfold readEndTag
  dsimp only
  split
  · next rest h =>
    rw [h] at whole
    simp only [List.append_assoc, List.singleton_append, whole, name]
  · simp only [List.append_assoc, whole, name]

theorem readStartTag_append (offset : Nat) (s : List Char) :
    (readStartTag offset s).raw ++ (readStartTag offset s).rest = Opening.startTag.text ++ s := by
  have name := List.takeWhile_append_dropWhile (p := (!endsTagName ·)) (l := s)
  simp only [readStartTag, List.append_assoc, readTagTail_append, name]

theorem readMarkup_append (offset : Nat) (o : Opening) (s : List Char) :
    (readMarkup offset o s).raw ++ (readMarkup offset o s).rest = o.text ++ s := by
  cases o with
  | comment => rw [readMarkup, Enclosed.lexeme_append, readComment_append]
  | endTag => exact readEndTag_append ..
  | startTag => exact readStartTag_append ..
  | _ => rw [readMarkup, readMarkup.bounded, Enclosed.lexeme_append, readEnclosed_append]

theorem readText_append (s : List Char) : (readText s).raw ++ (readText s).rest = s := by
  cases s with
  | nil => rfl
  | cons c s => simp [readText]

/-- The text of a token and what is left make up what was there. -/
theorem readToken_append (offset : Nat) (s : List Char) :
    (readToken offset s).raw ++ (readToken offset s).rest = s := by
  unfold readToken
  split
  · next o rest h => rw [readMarkup_append, opening?_append h]
  · exact readText_append s

theorem readRawText_append (offset : Nat) (element : RawElement) (s : List Char) :
    (readRawText offset element s).raw ++ (readRawText offset element s).rest = s :=
  Text.breakAt_append ..

/-! ## Something is taken -/

theorem Opening.text_ne_nil (o : Opening) : o.text ≠ [] := by
  cases o <;> simp [Opening.text]

/-- Markup starts with its opening text. -/
theorem readMarkup_raw (offset : Nat) (o : Opening) (s : List Char) :
    ∃ t, (readMarkup offset o s).raw = o.text ++ t := by
  cases o with
  | endTag =>
    unfold readMarkup readEndTag
    dsimp only
    split
    · exact ⟨_, List.append_assoc ..⟩
    · exact ⟨_, rfl⟩
  | _ => exact ⟨_, rfl⟩

theorem readMarkup_raw_ne_nil (offset : Nat) (o : Opening) (s : List Char) :
    (readMarkup offset o s).raw ≠ [] := by
  rcases readMarkup_raw offset o s with ⟨t, h⟩
  rw [h]
  exact List.append_ne_nil_of_left_ne_nil o.text_ne_nil t

/-- A token is not empty. -/
theorem readToken_raw_ne_nil (offset : Nat) {s : List Char} (h : s ≠ []) :
    (readToken offset s).raw ≠ [] := by
  unfold readToken
  split
  · exact readMarkup_raw_ne_nil offset _ _
  · cases s with
    | nil => exact absurd rfl h
    | cons c s => simp [readText]

/-! ## Cursors -/

/-- A place between two tokens. -/
structure Cursor where
  offset : Nat
  rest : List Char
  /-- The last token opened this element, and its content comes next. -/
  pending : Option RawElement
  deriving DecidableEq, Repr

/-- A token with the cursor after it. -/
structure Step where
  token : Token
  notices : List Notice
  next : Cursor

/-- The element whose content follows a token of this kind. -/
def Token.Kind.opens? : Token.Kind → Option RawElement
  | .startTag name _ false => RawElement.ofName? name
  | _ => none

namespace Cursor

/-- The start of a document. -/
def atStart (source : List Char) : Cursor :=
  ⟨0, source, none⟩

/-- What is read at the cursor. Pending content that is empty is passed over. -/
def lexeme (here : Cursor) : Lexeme :=
  match here.pending with
  | none => readToken here.offset here.rest
  | some element =>
    let content := readRawText here.offset element here.rest
    if content.raw = [] then readToken here.offset here.rest else content

/-- The token that `read` is at the cursor. -/
def place (here : Cursor) (read : Lexeme) : Step :=
  let span := Span.ofText here.offset read.raw
  { token := ⟨read.kind, read.raw, span⟩
    notices := read.notices
    next := ⟨span.stop, read.rest, read.kind.opens?⟩ }

/-- The next token, unless the document ends here. -/
def next? (here : Cursor) : Option Step :=
  if here.rest = [] then none else some (here.place here.lexeme)

theorem lexeme_append (here : Cursor) : here.lexeme.raw ++ here.lexeme.rest = here.rest := by
  unfold lexeme
  split
  · exact readToken_append ..
  · dsimp only
    split
    · exact readToken_append ..
    · exact readRawText_append ..

theorem lexeme_raw_ne_nil {here : Cursor} (h : here.rest ≠ []) : here.lexeme.raw ≠ [] := by
  unfold lexeme
  split
  · exact readToken_raw_ne_nil _ h
  · dsimp only
    split
    · exact readToken_raw_ne_nil _ h
    · next some_raw => exact some_raw

/-- A step takes its token off the front of what is left. -/
theorem next?_append {here : Cursor} {step : Step} (h : here.next? = some step) :
    step.token.raw ++ step.next.rest = here.rest := by
  unfold next? at h
  split at h
  · cases h
  · cases h
    exact here.lexeme_append

/-- A step takes at least one character. -/
theorem next?_raw_ne_nil {here : Cursor} {step : Step} (h : here.next? = some step) :
    step.token.raw ≠ [] := by
  unfold next? at h
  split at h
  · cases h
  · next more =>
    cases h
    exact lexeme_raw_ne_nil more

theorem next?_length {here : Cursor} {step : Step} (h : here.next? = some step) :
    step.next.rest.length < here.rest.length := by
  have whole := congrArg List.length (next?_append h)
  have taken := List.length_pos_iff.2 (next?_raw_ne_nil h)
  simp only [List.length_append] at whole
  omega

/-- What holds at the end of a document, and before a step whenever after it, holds everywhere. -/
theorem induction {motive : Cursor → Prop}
    (finished : ∀ here : Cursor, here.next? = none → motive here)
    (step : ∀ (here : Cursor) (step : Step), here.next? = some step → motive step.next →
      motive here)
    (here : Cursor) : motive here :=
  match taken : here.next? with
  | none => finished here taken
  | some one => step here one taken (induction finished step one.next)
termination_by here.rest.length
decreasing_by exact next?_length taken

/-- All steps from the cursor to the end of the document. -/
def steps (here : Cursor) : List Step :=
  go [] here
where
  /-- Carries the steps taken so far, latest first. -/
  go (done : List Step) (here : Cursor) : List Step :=
    match _taken : here.next? with
    | none => done.reverse
    | some step => go (step :: done) step.next
  termination_by here.rest.length
  decreasing_by exact next?_length _taken

theorem steps_go (here : Cursor) (done : List Step) :
    steps.go done here = done.reverse ++ here.steps := by
  induction here using Cursor.induction generalizing done with
  | finished here taken =>
    have ended : ∀ done, steps.go done here = done.reverse := by
      intro done
      rw [steps.go]
      split
      · rfl
      · next step h =>
        rw [taken] at h
        cases h
    rw [steps, ended, ended]
    simp
  | step here step taken ih =>
    have moved : ∀ done, steps.go done here = steps.go (step :: done) step.next := by
      intro done
      rw [steps.go]
      split
      · next h =>
        rw [taken] at h
        cases h
      · next other h =>
        rw [taken] at h
        cases h
        rfl
    rw [steps, moved, moved, ih, ih]
    simp

theorem steps_of_none {here : Cursor} (h : here.next? = none) : here.steps = [] := by
  rw [steps, steps.go]
  split
  · rfl
  · next step taken =>
    rw [h] at taken
    cases taken

theorem steps_of_some {here : Cursor} {step : Step} (h : here.next? = some step) :
    here.steps = step :: step.next.steps := by
  rw [steps, steps.go]
  split
  · next taken =>
    rw [h] at taken
    cases taken
  · next other taken =>
    rw [h] at taken
    cases taken
    rw [steps_go]
    rfl

end Cursor

/-- The tokens of a document. -/
def scan (source : List Char) : List Token :=
  (Cursor.atStart source).steps.map (·.token)

/-- What is to be noted about the tokens of a document. -/
def scanNotices (source : List Char) : List Notice :=
  (Cursor.atStart source).steps.flatMap (·.notices)

end HtmlLint
