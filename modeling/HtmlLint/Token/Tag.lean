import HtmlLint.Notice
import HtmlLint.Token.Basic
import HtmlLint.Token.Opening

/-!
# Reading start tags

After its name a start tag is a sequence of gaps and attributes. Reading never fails: a tag that
lacks its `>` ends where other markup opens or at the end of the document, and a quoted value that
lacks its closing quote ends where a tag would.

Each reader returns what it read together with the text it left, and an equation says that the two
make up what it was given.
-/

namespace HtmlLint

/-! ## Values -/

/-- The value of an attribute as read. -/
structure ReadValue where
  /-- The value without its quotes. -/
  value : List Char
  quote : Quote
  /-- The value as written. -/
  raw : List Char
  /-- A quoted value has its closing quote. -/
  closed : Bool
  rest : List Char

/-- Reads a value after its opening quote `q`. -/
def readQuoted (q : Char) (quote : Quote) (s : List Char) : ReadValue :=
  match s.dropWhile (· != q) with
  | _ :: rest =>
    let value := s.takeWhile (· != q)
    ⟨value, quote, q :: value ++ [q], true, rest⟩
  | [] =>
    let value := (Text.breakAt atTagBoundary s).1
    ⟨value, quote, q :: value, false, (Text.breakAt atTagBoundary s).2⟩

/-- A character of an unquoted value. -/
def isUnquotedChar (c : Char) : Bool :=
  !isSpace c && c != '>'

/-- Reads a value after the `=` and the space around it. -/
def readValue : List Char → ReadValue
  | '"' :: s => readQuoted '"' .double s
  | '\x27' :: s => readQuoted '\x27' .single s
  | s =>
    let value := s.takeWhile isUnquotedChar
    ⟨value, .unquoted, value, true, s.dropWhile isUnquotedChar⟩

/-- The character at which `dropWhile` stops. -/
theorem dropWhile_ne_cons {q c : Char} {s rest : List Char}
    (h : s.dropWhile (· != q) = c :: rest) : c = q := by
  induction s with
  | nil => cases h
  | cons d s ih =>
    by_cases same : d = q
    · simp only [same, List.dropWhile_cons, bne_self_eq_false, Bool.false_eq_true, if_false,
        List.cons.injEq] at h
      exact h.1.symm
    · exact ih (by simpa [same] using h)

theorem readQuoted_append (q : Char) (quote : Quote) (s : List Char) :
    (readQuoted q quote s).raw ++ (readQuoted q quote s).rest = q :: s := by
  unfold readQuoted
  split
  · next c rest h =>
    have whole := List.takeWhile_append_dropWhile (p := (· != q)) (l := s)
    rw [h, dropWhile_ne_cons h] at whole
    simpa using whole
  · simp

/-- Reading a value loses nothing. -/
theorem readValue_append (s : List Char) : (readValue s).raw ++ (readValue s).rest = s := by
  unfold readValue
  split
  · exact readQuoted_append ..
  · exact readQuoted_append ..
  · exact List.takeWhile_append_dropWhile

/-! ## Attributes -/

/-- An attribute as read. -/
structure ReadAttribute where
  item : Attribute
  rest : List Char
  notices : List Notice

/-- Reads the attribute that starts with `c`, at offset `offset`, and goes on with `s`. The first
character belongs to the name whatever it is. Space after a name without a value is left. -/
def readAttribute (offset : Nat) (c : Char) (s : List Char) : ReadAttribute :=
  let name := c :: s.takeWhile (!endsAttributeName ·)
  let afterName := s.dropWhile (!endsAttributeName ·)
  match afterName.dropWhile isSpace with
  | '=' :: s =>
    let lead := name ++ afterName.takeWhile isSpace ++ '=' :: s.takeWhile isSpace
    let read := readValue (s.dropWhile isSpace)
    let raw := lead ++ read.raw
    { item := ⟨name, read.value, read.quote, raw, .ofText offset raw⟩
      rest := read.rest
      notices := if read.closed then [] else [.openValue (offset + Text.byteLength lead + 1)] }
  | _ => ⟨⟨name, [], .missing, name, .ofText offset name⟩, afterName, []⟩

/-- Reading an attribute loses nothing. -/
theorem readAttribute_append (offset : Nat) (c : Char) (s : List Char) :
    (readAttribute offset c s).item.raw ++ (readAttribute offset c s).rest = c :: s := by
  have name := List.takeWhile_append_dropWhile (p := (!endsAttributeName ·)) (l := s)
  unfold readAttribute
  dsimp only
  split
  · next t h =>
    have space := List.takeWhile_append_dropWhile (p := isSpace)
      (l := s.dropWhile (!endsAttributeName ·))
    have pad := List.takeWhile_append_dropWhile (p := isSpace) (l := t)
    rw [h] at space
    simp only [List.append_assoc, List.cons_append, readValue_append, pad, space, name]
  · simp only [List.cons_append, name]

/-- An attribute is not empty. -/
theorem readAttribute_raw_ne_nil (offset : Nat) (c : Char) (s : List Char) :
    (readAttribute offset c s).item.raw ≠ [] := by
  unfold readAttribute
  dsimp only
  split <;> simp

theorem readAttribute_rest_length (offset : Nat) (c : Char) (s : List Char) :
    (readAttribute offset c s).rest.length < (c :: s).length := by
  have whole := congrArg List.length (readAttribute_append offset c s)
  have some_raw := List.length_pos_iff.2 (readAttribute_raw_ne_nil offset c s)
  simp only [List.length_append] at whole
  omega

/-! ## Tags -/

/-- How a start tag ends. -/
inductive TagEnding where
  /-- By `>`. -/
  | closed
  /-- By `/>`. -/
  | selfClosed
  /-- Other markup opens. -/
  | cut
  /-- The document ends. -/
  | unfinished
  deriving DecidableEq, Repr

/-- What follows the name of a start tag. -/
structure TagTail where
  attributes : List Attribute
  /-- All of it, as written. -/
  raw : List Char
  ending : TagEnding
  rest : List Char
  notices : List Notice

namespace TagTail

/-- Nothing but `raw`, which ends the tag. -/
def last (raw : List Char) (ending : TagEnding) (rest : List Char) : TagTail :=
  ⟨[], raw, ending, rest, []⟩

/-- Puts a gap before a tail. -/
def afterGap (gap : List Char) (tail : TagTail) : TagTail :=
  { tail with raw := gap ++ tail.raw }

/-- Puts an attribute before a tail. -/
def afterAttribute (read : ReadAttribute) (tail : TagTail) : TagTail :=
  { tail with
    attributes := read.item :: tail.attributes
    raw := read.item.raw ++ tail.raw
    notices := read.notices ++ tail.notices }

end TagTail

/-- Reads what follows the name of a start tag, from offset `offset` on. -/
def readTagTail (offset : Nat) (s : List Char) : TagTail :=
  match s with
  | [] => .last [] .unfinished []
  | c :: s =>
    if isSpace c then (readTagTail (offset + 1) s).afterGap [c]
    else if c = '>' then .last [c] .closed s
    else if c = '/' then
      match s with
      | '>' :: rest => .last [c, '>'] .selfClosed rest
      | s => (readTagTail (offset + 1) s).afterGap [c]
    else if opensMarkup (c :: s) then .last [] .cut (c :: s)
    else
      let read := readAttribute offset c s
      (readTagTail read.item.span.stop read.rest).afterAttribute read
termination_by s.length
decreasing_by
  · simp
  · simp
  · exact readAttribute_rest_length offset c s

theorem readTagTail_space (offset : Nat) {c : Char} (h : isSpace c = true) (s : List Char) :
    readTagTail offset (c :: s) = (readTagTail (offset + 1) s).afterGap [c] := by
  rw [readTagTail.eq_def]
  simp [h]

theorem readTagTail_close (offset : Nat) (s : List Char) :
    readTagTail offset ('>' :: s) = .last ['>'] .closed s := by
  rw [readTagTail.eq_def]
  simp [isSpace]

theorem readTagTail_selfClose (offset : Nat) (s : List Char) :
    readTagTail offset ('/' :: '>' :: s) = .last ['/', '>'] .selfClosed s := by
  rw [readTagTail.eq_def]
  simp [isSpace]

theorem readTagTail_slash (o : Nat) {s : List Char} (h : s.head? ≠ some '>') :
    readTagTail o ('/' :: s) = (readTagTail (o + 1) s).afterGap ['/'] := by
  rw [readTagTail.eq_def]
  have hslash : isSpace '/' = false := rfl
  simp only [hslash, Bool.false_eq_true, if_false, if_true]
  rw [if_neg (by decide)]
  split
  · exact absurd rfl h
  · rfl

theorem readTagTail_markup (o : Nat) {s : List Char} (h : opensMarkup s = true) :
    readTagTail o s = .last [] .cut s := by
  rcases exists_bracket_of_opensMarkup h with ⟨t, rfl⟩
  rw [readTagTail.eq_def]
  simp [isSpace, h]

/-- Where no gap, no end and no markup is, an attribute starts. -/
theorem readTagTail_attribute (offset : Nat) {c : Char} {s : List Char}
    (hname : endsTagName c = false) (hmarkup : opensMarkup (c :: s) = false) :
    readTagTail offset (c :: s) =
      (readTagTail (readAttribute offset c s).item.span.stop
        (readAttribute offset c s).rest).afterAttribute (readAttribute offset c s) := by
  simp only [endsTagName, Bool.or_eq_false_iff, beq_eq_false_iff_ne] at hname
  rw [readTagTail.eq_def]
  simp [hname, hmarkup]

/-- Reading a tag loses nothing. -/
theorem readTagTail_append (offset : Nat) (s : List Char) :
    (readTagTail offset s).raw ++ (readTagTail offset s).rest = s := by
  fun_induction readTagTail offset s with
  | case1 => rfl
  | case2 offset c s space ih => simpa [TagTail.afterGap] using ih
  | case3 => rfl
  | case4 => rfl
  | case5 offset c s _ _ ih => simpa [TagTail.afterGap] using ih
  | case6 => rfl
  | case7 offset c s _ _ _ _ read ih =>
    have := readAttribute_append offset c s
    simp only [TagTail.afterAttribute, List.append_assoc, ih]
    exact this

end HtmlLint
