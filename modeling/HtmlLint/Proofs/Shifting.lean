import HtmlLint.Proofs.Tiling

/-!
# Scanning starts afresh at every cursor

What a cursor reads depends on the text that is left and on pending content; the offset only enters
the spans. So the tokens after a cursor without pending content are the tokens of the text that is
left, scanned as a document of its own, with all spans moved by the cursor's offset.

* `Token.shift` — a token moved by a number of bytes, with the attributes inside it.
* `TagTail.Shifted`, `Lexeme.Shifted` — what a reader gives at two offsets.
* `Cursor.steps_shift` — the tokens from two cursors that differ in the offset.
-/

namespace HtmlLint

/-! ## Moving tokens -/

def Span.shift (p : Nat) (span : Span) : Span :=
  ⟨span.start + p, span.stop + p⟩

def Attribute.shift (p : Nat) (a : Attribute) : Attribute :=
  { a with span := a.span.shift p }

/-- Of the kinds of tokens, only start tags hold offsets. -/
def Token.Kind.shift (p : Nat) : Token.Kind → Token.Kind
  | .startTag name attributes selfClosing =>
    .startTag name (attributes.map (Attribute.shift p)) selfClosing
  | kind => kind

/-- The token moved by `p` bytes. -/
def Token.shift (p : Nat) (t : Token) : Token :=
  ⟨t.kind.shift p, t.raw, t.span.shift p⟩

theorem Span.ofText_add (o p : Nat) (s : List Char) :
    Span.ofText (o + p) s = (Span.ofText o s).shift p := by
  simp [Span.ofText, Span.shift, Nat.add_right_comm]

@[simp]
theorem Token.Kind.opens?_shift (p : Nat) (kind : Token.Kind) :
    (kind.shift p).opens? = kind.opens? := by
  cases kind with
  | startTag name attributes selfClosing => cases selfClosing <;> rfl
  | _ => rfl

/-! ## Start tags -/

theorem readAttribute_shift (p o : Nat) (c : Char) (s : List Char) :
    (readAttribute (o + p) c s).item = (readAttribute o c s).item.shift p
      ∧ (readAttribute (o + p) c s).rest = (readAttribute o c s).rest := by
  unfold readAttribute
  dsimp only
  -- the offset is used for the span only, with a value and without
  split <;> simp [Attribute.shift, Span.ofText_add]

/-- The tail `b` is the tail `a` moved by `p` bytes. -/
structure TagTail.Shifted (p : Nat) (a b : TagTail) : Prop where
  attributes : b.attributes = a.attributes.map (Attribute.shift p)
  raw : b.raw = a.raw
  ending : b.ending = a.ending
  rest : b.rest = a.rest

namespace TagTail.Shifted

variable {p : Nat} {a b : TagTail}

theorem last (p : Nat) (raw : List Char) (ending : TagEnding) (rest : List Char) :
    Shifted p (.last raw ending rest) (.last raw ending rest) :=
  ⟨rfl, rfl, rfl, rfl⟩

theorem afterGap (gap : List Char) (h : a.Shifted p b) :
    (a.afterGap gap).Shifted p (b.afterGap gap) :=
  ⟨h.attributes, congrArg (gap ++ ·) h.raw, h.ending, h.rest⟩

theorem afterAttribute {read read' : ReadAttribute} (hitem : read'.item = read.item.shift p)
    (h : a.Shifted p b) : (a.afterAttribute read).Shifted p (b.afterAttribute read') := by
  refine ⟨?_, ?_, h.ending, h.rest⟩
  · simp [TagTail.afterAttribute, hitem, h.attributes]
  · simp [TagTail.afterAttribute, hitem, h.raw, Attribute.shift]

end TagTail.Shifted

theorem readTagTail_shift (p o : Nat) (s : List Char) :
    (readTagTail o s).Shifted p (readTagTail (o + p) s) := by
  -- the induction follows the reader at the smaller offset
  fun_induction readTagTail o s with
  | case1 o =>
    have hempty : readTagTail (o + p) [] = .last [] .unfinished [] := by rw [readTagTail]
    rw [hempty]
    exact .last p [] .unfinished []
  | case2 o c s hspace ih =>
    rw [readTagTail_space (o + p) hspace, Nat.add_right_comm]
    exact ih.afterGap [c]
  | case3 o s =>
    rw [readTagTail_close]
    exact .last p ['>'] .closed s
  | case4 o rest =>
    rw [readTagTail_selfClose]
    exact .last p ['/', '>'] .selfClosed rest
  | case5 o s hnext _ _ ih =>
    have hhead : s.head? ≠ some '>' := by
      intro h
      rcases List.head?_eq_some_iff.1 h with ⟨t, ht⟩
      exact hnext t ht
    rw [readTagTail_slash (o + p) hhead, Nat.add_right_comm]
    exact ih.afterGap ['/']
  | case6 o c s _ _ _ hmarkup =>
    rw [readTagTail_markup (o + p) hmarkup]
    exact .last p [] .cut (c :: s)
  | case7 o c s hspace hclosed hslashed hmarkup read ih =>
    have hends : endsTagName c = false := by
      simp [endsTagName, hspace, hclosed, hslashed]
    have hopens : opensMarkup (c :: s) = false := by simpa using hmarkup
    rcases readAttribute_shift p o c s with ⟨hitem, hrest⟩
    -- the rest of the tag starts where the attribute ends, which is moved as well
    have hstop : (readAttribute (o + p) c s).item.span.stop = read.item.span.stop + p := by
      rw [hitem]
      rfl
    rw [readTagTail_attribute (o + p) hends hopens, hstop, hrest]
    exact ih.afterAttribute hitem

/-! ## Tokens -/

/-- The lexeme `b` is the lexeme `a` moved by `p` bytes. Notices are left out. -/
structure Lexeme.Shifted (p : Nat) (a b : Lexeme) : Prop where
  kind : b.kind = a.kind.shift p
  raw : b.raw = a.raw
  rest : b.rest = a.rest

theorem commentKind_shift (p : Nat) (data : List Char) :
    (commentKind data).shift p = commentKind data := by
  unfold commentKind
  split <;> rfl

theorem readEndTag_shift (p o : Nat) (s : List Char) :
    (readEndTag o s).Shifted p (readEndTag (o + p) s) := by
  unfold readEndTag
  dsimp only
  split <;> exact ⟨rfl, rfl, rfl⟩

theorem readStartTag_shift (p o : Nat) (s : List Char) :
    (readStartTag o s).Shifted p (readStartTag (o + p) s) := by
  have htail := readTagTail_shift p (o + 1 + Text.byteLength (s.takeWhile (!endsTagName ·)))
    (s.dropWhile (!endsTagName ·))
  have hoffset : o + 1 + Text.byteLength (s.takeWhile (!endsTagName ·)) + p
      = o + p + 1 + Text.byteLength (s.takeWhile (!endsTagName ·)) := by omega
  rw [hoffset] at htail
  refine ⟨?_, ?_, htail.rest⟩
  · simp [readStartTag, Token.Kind.shift, htail.attributes, htail.ending]
  · simp [readStartTag, htail.raw]

theorem readMarkup_shift (p o : Nat) (op : Opening) (s : List Char) :
    (readMarkup o op s).Shifted p (readMarkup (o + p) op s) := by
  cases op with
  | comment => exact ⟨(commentKind_shift p _).symm, rfl, rfl⟩
  | endTag => exact readEndTag_shift p o s
  | startTag => exact readStartTag_shift p o s
  | _ => exact ⟨rfl, rfl, rfl⟩

theorem readToken_shift (p o : Nat) (s : List Char) :
    (readToken o s).Shifted p (readToken (o + p) s) := by
  unfold readToken
  split
  · next op rest _ => exact readMarkup_shift p o op rest
  · cases s <;> exact ⟨rfl, rfl, rfl⟩

/-! ## Cursors -/

namespace Cursor

/-- The same place of a document with `p` more bytes before it. -/
def shift (p : Nat) (here : Cursor) : Cursor :=
  { here with offset := here.offset + p }

theorem lexeme_shift (p : Nat) (here : Cursor) :
    here.lexeme.Shifted p (here.shift p).lexeme := by
  unfold lexeme shift
  cases here.pending with
  | none => exact readToken_shift p here.offset here.rest
  | some element =>
    -- the content has no offset in it, so it is passed over at both places or at none
    by_cases hempty : (readRawText here.offset element here.rest).raw = []
    · have hempty' : (readRawText (here.offset + p) element here.rest).raw = [] := hempty
      simp only [hempty, hempty', if_true]
      exact readToken_shift p here.offset here.rest
    · have hempty' : (readRawText (here.offset + p) element here.rest).raw ≠ [] := hempty
      simp only [hempty, hempty', if_false]
      exact ⟨rfl, rfl, rfl⟩

/-- One step at two places: the tokens differ by the distance, and so do the places after them. -/
theorem place_shift (p : Nat) (here : Cursor) :
    ((here.shift p).place (here.shift p).lexeme).token
        = ((here.place here.lexeme).token).shift p
      ∧ ((here.shift p).place (here.shift p).lexeme).next
        = ((here.place here.lexeme).next).shift p := by
  have hread := here.lexeme_shift p
  have hspan : Span.ofText (here.shift p).offset (here.shift p).lexeme.raw
      = (Span.ofText here.offset here.lexeme.raw).shift p := by
    rw [hread.raw]
    exact Span.ofText_add here.offset p here.lexeme.raw
  constructor
  · dsimp only [place]
    rw [hspan, hread.kind, hread.raw]
    rfl
  · dsimp only [place]
    rw [hspan, hread.kind, hread.rest, Token.Kind.opens?_shift]
    rfl

theorem steps_shift (p : Nat) (here : Cursor) :
    (here.shift p).steps.map (·.token) = (here.steps.map (·.token)).map (Token.shift p) := by
  induction here using Cursor.induction with
  | finished here hnone =>
    have hnone' : (here.shift p).next? = none := by
      simp [next?, shift, rest_of_none hnone]
    rw [steps_of_none hnone, steps_of_none hnone']
    rfl
  | step here step hsome ih =>
    have hmore : here.rest ≠ [] := by
      intro hend
      simp [next?, hend] at hsome
    obtain rfl : here.place here.lexeme = step := by simpa [next?, hmore] using hsome
    have hsome' : (here.shift p).next? = some ((here.shift p).place (here.shift p).lexeme) :=
      if_neg hmore
    rcases here.place_shift p with ⟨htoken, hnext⟩
    rw [steps_of_some hsome, steps_of_some hsome', List.map_cons, htoken, hnext, ih]
    rfl

/-- Cutting the document at the cursor's offset leaves what the cursor has before it. -/
theorem StandsIn.dropBytes_offset {here : Cursor} {source : List Char} (h : here.StandsIn source) :
    Text.dropBytes here.offset source = here.rest := by
  rcases h with ⟨passed, hsource, hoffset⟩
  rw [hoffset, hsource]
  exact Text.dropBytes_byteLength_append passed here.rest

theorem StandsIn.isBoundary_offset {here : Cursor} {source : List Char}
    (h : here.StandsIn source) : Text.isBoundary source here.offset = true := by
  rcases h with ⟨passed, hsource, hoffset⟩
  exact Text.isBoundary_iff.2 ⟨passed, here.rest, hsource, hoffset.symm⟩

/-- Without pending content, a cursor is the start of the text that is left, moved to its offset. -/
theorem eq_shift_atStart {here : Cursor} (h : here.pending = none) :
    here = (atStart here.rest).shift here.offset := by
  rcases here with ⟨offset, rest, pending⟩
  obtain rfl : pending = none := h
  simp [atStart, shift]

end Cursor

/-! ## Scanners -/

namespace Scanner

/-- The scanner after `n` requests. -/
def afterRequests (here : Scanner) : Nat → Scanner
  | 0 => here
  | n + 1 => here.afterRequest.afterRequests n

theorem request_add (here : Scanner) (n m : Nat) :
    here.request (n + m) = (here.afterRequests n).request m := by
  induction n generalizing here with
  | zero => rw [Nat.zero_add]; rfl
  | succ n ih =>
    rw [Nat.succ_add]
    exact ih here.afterRequest

theorem standsIn_afterRequest {here : Scanner} {source : List Char}
    (h : here.cursor.StandsIn source) : here.afterRequest.cursor.StandsIn source := by
  cases hnext : here.cursor.next? with
  | none =>
    simp only [afterRequest, next?_of_none hnext]
    exact h
  | some step =>
    simp only [afterRequest, next?_of_some hnext]
    exact h.next hnext

theorem standsIn_afterRequests {here : Scanner} {source : List Char}
    (h : here.cursor.StandsIn source) (n : Nat) :
    (here.afterRequests n).cursor.StandsIn source := by
  induction n generalizing here with
  | zero => exact h
  | succ n ih => exact ih (standsIn_afterRequest h)

end Scanner

/-- The cursor after `n` tokens of a document were asked for. -/
def cursorAfter (source : List Char) (n : Nat) : Cursor :=
  ((Scanner.atStart source).afterRequests n).cursor

/-- Scanning has no memory besides its offset and pending content: where nothing is pending after
`n` requests, each further request is answered as a new scanner of the text that is left answers it,
moved by the offset, and so the remaining tokens are the tokens of that text. -/
theorem request_after_cursor (source : List Char) (n : Nat)
    (hpending : (cursorAfter source n).pending = none) :
    Text.isBoundary source (cursorAfter source n).offset = true
      ∧ (∀ m, (Scanner.atStart source).request (n + m)
          = ((Scanner.atStart (Text.dropBytes (cursorAfter source n).offset source)).request m).map
              (Token.shift (cursorAfter source n).offset))
      ∧ (scan source).drop n
          = (scan (Text.dropBytes (cursorAfter source n).offset source)).map
              (Token.shift (cursorAfter source n).offset) := by
  have hin : (cursorAfter source n).StandsIn source :=
    Scanner.standsIn_afterRequests (Cursor.atStart_standsIn source) n
  have hrest := hin.dropBytes_offset
  have hsteps : (cursorAfter source n).steps.map (·.token)
      = (scan (cursorAfter source n).rest).map (Token.shift (cursorAfter source n).offset) := by
    calc
      (cursorAfter source n).steps.map (·.token)
          = ((Cursor.atStart (cursorAfter source n).rest).shift
              (cursorAfter source n).offset).steps.map (·.token) := by
            rw [← Cursor.eq_shift_atStart hpending]
      _ = (scan (cursorAfter source n).rest).map (Token.shift (cursorAfter source n).offset) :=
            Cursor.steps_shift _ _
  have hrequest : ∀ m, (Scanner.atStart source).request (n + m)
      = ((scan (cursorAfter source n).rest).map (Token.shift (cursorAfter source n).offset))[m]? := by
    intro m
    rw [Scanner.request_add, Scanner.request_eq]
    exact congrArg (·[m]?) hsteps
  rw [hrest]
  refine ⟨hin.isBoundary_offset, ?_, ?_⟩
  · intro m
    rw [hrequest, List.getElem?_map]
    exact congrArg _ (Scanner.request_eq (.atStart _) m).symm
  · apply List.ext_getElem?
    intro m
    rw [List.getElem?_drop, ← hrequest m]
    exact (Scanner.request_eq (.atStart source) (n + m)).symm

/-- In `<style>é</style><p a=b>` nothing is pending after two tokens, nine bytes in; the last token
and its attribute are those of `</style><p a=b>` moved by nine. -/
theorem request_after_rawText :
    (cursorAfter "<style>é</style><p a=b>".toList 2).pending = none
      ∧ (cursorAfter "<style>é</style><p a=b>".toList 2).offset = 9
      ∧ (scan "<style>é</style><p a=b>".toList).drop 2
        = (scan "</style><p a=b>".toList).map (Token.shift 9) := by
  have hpending : (cursorAfter "<style>é</style><p a=b>".toList 2).pending = none := by
    decide +kernel
  have hoffset : (cursorAfter "<style>é</style><p a=b>".toList 2).offset = 9 := by
    decide +kernel
  have hdrop : Text.dropBytes 9 "<style>é</style><p a=b>".toList = "</style><p a=b>".toList := by
    decide +kernel
  have hshift := (request_after_cursor "<style>é</style><p a=b>".toList 2 hpending).2.2
  rw [hoffset, hdrop] at hshift
  exact ⟨hpending, hoffset, hshift⟩

end HtmlLint
