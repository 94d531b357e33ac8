import HtmlLint.Proofs.Bytes.Utf8

/-!
# Scanning bytes

A scanner that sees a document as bytes. It goes from byte to byte, also from the first byte of a
character to the next one, and all its tests are about ASCII characters. It never takes a piece of
the document: what it finds is an outline of each token, the offsets at which the document is to be
sliced. Filling in an outline slices the document and fails where that is not possible.

* `Outline.fill?` — the token of an outline.
* `Place` — an offset with the bytes from there on.
* `outlines` — the outlines of the tokens of a document.
-/

namespace HtmlLint

/-! ## Outlines -/

/-- The offsets of an attribute and its parts. A missing value is not sliced. -/
structure AttributeOutline where
  name : Span
  value : Option Span
  quote : Quote
  span : Span
  deriving DecidableEq, Repr

/-- What a token is, with the offsets of the parts of its text that matter. -/
inductive OutlineKind where
  | startTag (name : Span) (attributes : List AttributeOutline) (selfClosing : Bool)
  | endTag (name : Span)
  | text
  | comment (data : Span)
  | conditional (data : Span)
  | declaration (data : Span)
  | cdata (data : Span) (element : Option RawElement)
  deriving DecidableEq, Repr

structure Outline where
  kind : OutlineKind
  span : Span
  deriving DecidableEq, Repr

namespace AttributeOutline

/-- The value, which is empty when it is missing. -/
def sliceValue? (source : List Char) (o : AttributeOutline) : Option (List Char) :=
  match o.value with
  | some value => value.slice? source
  | none => some []

def fill? (source : List Char) (o : AttributeOutline) : Option Attribute := do
  let name ← o.name.slice? source
  let value ← o.sliceValue? source
  let raw ← o.span.slice? source
  return ⟨name, value, o.quote, raw, o.span⟩

/-- Where the document is sliced. -/
def spans (o : AttributeOutline) : List Span :=
  o.name :: (o.value.toList ++ [o.span])

end AttributeOutline

namespace OutlineKind

def fill? (source : List Char) : OutlineKind → Option Token.Kind
  | startTag name attributes selfClosing => do
    return .startTag (← name.slice? source) (← attributes.mapM (AttributeOutline.fill? source))
      selfClosing
  | endTag name => (name.slice? source).map .endTag
  | text => some .text
  | comment data => (data.slice? source).map .comment
  | conditional data => (data.slice? source).map .conditional
  | declaration data => (data.slice? source).map .declaration
  | cdata data element => (data.slice? source).map (.cdata · element)

def attributes : OutlineKind → List AttributeOutline
  | startTag _ attributes _ => attributes
  | _ => []

def spans : OutlineKind → List Span
  | startTag name attributes _ => name :: attributes.flatMap AttributeOutline.spans
  | text => []
  | endTag span | comment span | conditional span | declaration span | cdata span _ => [span]

end OutlineKind

namespace Outline

/-- Slices the document to the parts of a token. -/
def fill? (source : List Char) (o : Outline) : Option Token := do
  return ⟨← o.kind.fill? source, ← o.span.slice? source, o.span⟩

/-- Where the document is sliced. -/
def spans (o : Outline) : List Span :=
  o.span :: o.kind.spans

end Outline

/-! ## Tests on bytes -/

/-- The `n`-th byte is an ASCII character with a property. -/
def byteIs (bs : List UInt8) (n : Nat) (p : Char → Bool) : Bool :=
  bs[n]?.any (Text.holdsOf p)

/-- Markup opens at the first byte. -/
def opensMarkupBytes (bs : List UInt8) : Bool :=
  byteIs bs 0 (· == '<')
    && (byteIs bs 1 (· == '!') || byteIs bs 1 (· == '?')
      || byteIs bs 1 (· == '/') && byteIs bs 2 Char.isAlpha || byteIs bs 1 Char.isAlpha)

/-- A tag that is still open ends before the first byte. -/
def endsTag (bs : List UInt8) : Bool :=
  byteIs bs 0 (· == '>') || opensMarkupBytes bs

/-- The bytes start with those of `text`. -/
def startsWithBytes (text : List Char) (bs : List UInt8) : Bool :=
  (Text.bytes text).isPrefixOf bs

/-- The form of the markup that opens at the first byte. -/
def form? (bs : List UInt8) : Option Opening :=
  if !opensMarkupBytes bs then none
  else if startsWithBytes Opening.comment.text bs then some .comment
  else if startsWithBytes Opening.cdata.text bs then some .cdata
  else if startsWithBytes Opening.conditional.text bs then some .conditional
  else if startsWithBytes Opening.declaration.text bs then some .declaration
  else if startsWithBytes ['<', '?'] bs then some .instruction
  else if startsWithBytes Opening.endTag.text bs then some .endTag
  else if byteIs bs 1 Char.isAlpha then some .startTag
  else none

/-- The bytes start with an end tag of `element`. -/
def closesElementBytes (element : RawElement) (bs : List UInt8) : Bool :=
  let length := (Text.bytes element.name).length
  startsWithBytes Opening.endTag.text bs
    && Text.sameBytesIgnoringCase ((bs.drop 2).take length) (Text.bytes element.name)
    && (bs.drop (2 + length)).head?.all (Text.holdsOf endsTagName)

/-- The raw element with this name in any case. -/
def RawElement.ofBytes? (name : List UInt8) : Option RawElement :=
  if Text.sameBytesIgnoringCase name (Text.bytes script.name) then some script
  else if Text.sameBytesIgnoringCase name (Text.bytes style.name) then some style
  else none

/-! ## Places -/

/-- An offset of a document, with the bytes from there on. -/
structure Place where
  offset : Nat
  rest : List UInt8
  deriving DecidableEq, Repr

/-- Something that was found, with the place behind it. -/
structure Found (α : Type) where
  item : α
  next : Place

namespace Place

def forward (here : Place) (n : Nat) : Place :=
  ⟨here.offset + n, here.rest.drop n⟩

/-- Passes bytes as long as they have a property. -/
def skip (p : UInt8 → Bool) (here : Place) : Place :=
  here.forward (here.rest.takeWhile p).length

/-- Passes bytes until what is left has a property. -/
def seek (q : List UInt8 → Bool) (here : Place) : Place :=
  here.forward (Text.seek q here.rest)

def spanTo (here there : Place) : Span :=
  ⟨here.offset, there.offset⟩

/-- The byte `n` bytes ahead is an ASCII character with a property. -/
def peek (here : Place) (n : Nat) (p : Char → Bool) : Bool :=
  byteIs here.rest n p

theorem length_forward (here : Place) (n : Nat) :
    (here.forward n).rest.length = here.rest.length - n :=
  List.length_drop

theorem length_skip_le (here : Place) (p : UInt8 → Bool) :
    (here.skip p).rest.length ≤ here.rest.length := by
  rw [skip, length_forward]
  exact Nat.sub_le _ _

theorem length_seek_le (here : Place) (q : List UInt8 → Bool) :
    (here.seek q).rest.length ≤ here.rest.length := by
  rw [seek, length_forward]
  exact Nat.sub_le _ _

end Place

/-! ## Attributes -/

/-- Finds the end of a value after its opening quote `q`. A quote that does not come again is no
reason to go on to the end of the document. -/
def outlineQuoted (q : Char) (here : Place) : Found Span :=
  let stop := here.skip (!Text.holdsOf (· == q) ·)
  if stop.rest.isEmpty then
    let stop := here.seek endsTag
    ⟨here.spanTo stop, stop⟩
  else ⟨here.spanTo stop, stop.forward 1⟩

def outlineValue (here : Place) : Found (Span × Quote) :=
  if here.peek 0 (· == '"') then
    let read := outlineQuoted '"' (here.forward 1)
    ⟨(read.item, .double), read.next⟩
  else if here.peek 0 (· == '\x27') then
    let read := outlineQuoted '\x27' (here.forward 1)
    ⟨(read.item, .single), read.next⟩
  else
    let stop := here.skip (!Text.holdsOf (!isUnquotedChar ·) ·)
    ⟨(here.spanTo stop, .unquoted), stop⟩

def outlineAttribute (here : Place) : Found AttributeOutline :=
  -- the first byte is passed whatever it is, also when its character has more of them
  let nameStop := (here.forward 1).skip (!Text.holdsOf endsAttributeName ·)
  let sign := nameStop.skip (Text.holdsOf isSpace)
  if sign.peek 0 (· == '=') then
    let read := outlineValue ((sign.forward 1).skip (Text.holdsOf isSpace))
    ⟨⟨here.spanTo nameStop, some read.item.1, read.item.2, here.spanTo read.next⟩, read.next⟩
  else ⟨⟨here.spanTo nameStop, none, .missing, here.spanTo nameStop⟩, nameStop⟩

theorem length_outlineQuoted_le (q : Char) (here : Place) :
    (outlineQuoted q here).next.rest.length ≤ here.rest.length := by
  have hskip := here.length_skip_le (!Text.holdsOf (· == q) ·)
  unfold outlineQuoted
  dsimp only
  split
  · exact here.length_seek_le _
  · rw [Place.length_forward]
    omega

theorem length_outlineValue_le (here : Place) :
    (outlineValue here).next.rest.length ≤ here.rest.length := by
  have hafter := here.length_forward 1
  unfold outlineValue
  dsimp only
  split
  · have hquoted := length_outlineQuoted_le '"' (here.forward 1)
    dsimp only
    omega
  · split
    · have hquoted := length_outlineQuoted_le '\x27' (here.forward 1)
      dsimp only
      omega
    · exact here.length_skip_le _

theorem length_outlineAttribute_lt {here : Place} (h : here.rest ≠ []) :
    (outlineAttribute here).next.rest.length < here.rest.length := by
  have hmore := List.length_pos_iff.2 h
  have hafter := here.length_forward 1
  have hname := (here.forward 1).length_skip_le (!Text.holdsOf endsAttributeName ·)
  unfold outlineAttribute
  dsimp only
  split
  · have hsign := ((here.forward 1).skip (!Text.holdsOf endsAttributeName ·)).length_skip_le
      (Text.holdsOf isSpace)
    have hvalue := length_outlineValue_le (((((here.forward 1).skip
      (!Text.holdsOf endsAttributeName ·)).skip (Text.holdsOf isSpace)).forward 1).skip
        (Text.holdsOf isSpace))
    have hpad := ((((here.forward 1).skip (!Text.holdsOf endsAttributeName ·)).skip
      (Text.holdsOf isSpace)).forward 1).length_skip_le (Text.holdsOf isSpace)
    rw [Place.length_forward] at hpad
    dsimp only
    omega
  · dsimp only
    omega

/-- Finds the attributes of a tag, and whether it closes itself. Space has been passed already. -/
def outlineAttributes (here : Place) : Found (List AttributeOutline × Bool) :=
  if _more : here.rest = [] then ⟨([], false), here⟩
  else if opensMarkupBytes here.rest then ⟨([], false), here⟩
  else if here.peek 0 (· == '>') then ⟨([], false), here.forward 1⟩
  else if here.peek 0 (· == '/') then
    if here.peek 1 (· == '>') then ⟨([], true), here.forward 2⟩
    else outlineAttributes ((here.forward 1).skip (Text.holdsOf isSpace))
  else
    let read := outlineAttribute here
    let others := outlineAttributes (read.next.skip (Text.holdsOf isSpace))
    ⟨(read.item :: others.item.1, others.item.2), others.next⟩
termination_by here.rest.length
decreasing_by
  · have hskip := (here.forward 1).length_skip_le (Text.holdsOf isSpace)
    have hmore := List.length_pos_iff.2 _more
    rw [Place.length_forward] at hskip
    omega
  · have hskip := (outlineAttribute here).next.length_skip_le (Text.holdsOf isSpace)
    have hread := length_outlineAttribute_lt _more
    omega

theorem length_outlineAttributes_le (here : Place) :
    (outlineAttributes here).next.rest.length ≤ here.rest.length := by
  fun_induction outlineAttributes here with
  | case1 => exact Nat.le_refl _
  | case2 => exact Nat.le_refl _
  | case3 => rw [Place.length_forward]; exact Nat.sub_le _ _
  | case4 => rw [Place.length_forward]; exact Nat.sub_le _ _
  | case5 here _ _ _ _ _ ih =>
    have hskip := (here.forward 1).length_skip_le (Text.holdsOf isSpace)
    rw [Place.length_forward] at hskip
    omega
  | case6 here hmore _ _ _ read others ih =>
    have hskip := read.next.length_skip_le (Text.holdsOf isSpace)
    have hread := length_outlineAttribute_lt hmore
    exact Nat.le_trans ih (Nat.le_trans hskip (Nat.le_of_lt hread))

/-! ## Tokens -/

/-- Finds the end of data that is closed by `close`, or by the end of the document. -/
def outlineEnclosed (close : List Char) (here : Place) : Found Span :=
  let stop := here.seek (startsWithBytes close)
  ⟨here.spanTo stop,
    if stop.rest.isEmpty then stop else stop.forward (Text.bytes close).length⟩

def outlineComment (here : Place) : Found Span :=
  if startsWithBytes ['>'] here.rest then ⟨here.spanTo here, here.forward 1⟩
  else if startsWithBytes ['-', '>'] here.rest then ⟨here.spanTo here, here.forward 2⟩
  else outlineEnclosed ['-', '-', '>'] here

/-- The kind of a comment whose data are these bytes. -/
def outlineCommentKind (data : List UInt8) (span : Span) : OutlineKind :=
  if startsWithBytes ['[', 'i', 'f'] data
      || (Text.bytes ['<', '!', '[', 'e', 'n', 'd', 'i', 'f', ']']).isSuffixOf data then
    .conditional span
  else .comment span

/-- Finds the parts of the markup that opens in the form `op`, and the element whose content comes
next. -/
def outlineMarkup (op : Opening) (here : Place) : Found (OutlineKind × Option RawElement) :=
  let inner := here.forward (Text.bytes op.text).length
  match op with
  | .comment =>
    let read := outlineComment inner
    ⟨(outlineCommentKind (inner.rest.take read.item.length) read.item, none), read.next⟩
  | .cdata => enclosed inner [']', ']', '>'] (.cdata · none)
  | .conditional => enclosed inner [']', '>'] .conditional
  | .declaration => enclosed inner ['>'] .declaration
  | .instruction => enclosed inner ['>'] .comment
  | .endTag =>
    let nameStop := inner.skip (!Text.holdsOf endsTagName ·)
    let stop := nameStop.seek endsTag
    ⟨(.endTag (inner.spanTo nameStop), none),
      if stop.peek 0 (· == '>') then stop.forward 1 else stop⟩
  | .startTag =>
    let nameStop := inner.skip (!Text.holdsOf endsTagName ·)
    let name := inner.spanTo nameStop
    let read := outlineAttributes (nameStop.skip (Text.holdsOf isSpace))
    ⟨(.startTag name read.item.1 read.item.2,
      if read.item.2 then none else RawElement.ofBytes? (inner.rest.take name.length)), read.next⟩
where
  /-- Markup closed by a fixed text. -/
  enclosed (inner : Place) (close : List Char) (kind : Span → OutlineKind) :
      Found (OutlineKind × Option RawElement) :=
    let read := outlineEnclosed close inner
    ⟨(kind read.item, none), read.next⟩

/-- Text takes one byte at least, which need not be a whole character. -/
def outlineText (here : Place) : Found (OutlineKind × Option RawElement) :=
  ⟨(.text, none), (here.forward 1).seek opensMarkupBytes⟩

/-- Finds the parts of the next token; `pending` is the element whose content comes first. -/
def outlineToken (pending : Option RawElement) (here : Place) :
    Found (OutlineKind × Option RawElement) :=
  match pending with
  | none => markupOrText
  | some element =>
    let stop := here.seek (closesElementBytes element)
    if here.offset < stop.offset then ⟨(.cdata (here.spanTo stop) (some element), none), stop⟩
    else markupOrText
where
  markupOrText : Found (OutlineKind × Option RawElement) :=
    match form? here.rest with
    | some op => outlineMarkup op here
    | none => outlineText here

theorem length_outlineEnclosed_le (close : List Char) (here : Place) :
    (outlineEnclosed close here).next.rest.length ≤ here.rest.length := by
  have hseek := here.length_seek_le (startsWithBytes close)
  unfold outlineEnclosed
  dsimp only
  split
  · exact hseek
  · rw [Place.length_forward]
    omega

theorem length_outlineComment_le (here : Place) :
    (outlineComment here).next.rest.length ≤ here.rest.length := by
  unfold outlineComment
  split
  · rw [Place.length_forward]; exact Nat.sub_le _ _
  · split
    · rw [Place.length_forward]; exact Nat.sub_le _ _
    · exact length_outlineEnclosed_le _ here

theorem length_outlineMarkup_lt (op : Opening) {here : Place} (h : here.rest ≠ []) :
    (outlineMarkup op here).next.rest.length < here.rest.length := by
  have hmore := List.length_pos_iff.2 h
  have hopening : 0 < (Text.bytes op.text).length := by cases op <;> decide
  have hinner := here.length_forward (Text.bytes op.text).length
  refine Nat.lt_of_le_of_lt (m := (here.forward (Text.bytes op.text).length).rest.length) ?_
    (by omega)
  have hname := (here.forward (Text.bytes op.text).length).length_skip_le
    (!Text.holdsOf endsTagName ·)
  cases op with
  | comment => exact length_outlineComment_le _
  | endTag =>
    have hseek := ((here.forward (Text.bytes Opening.endTag.text).length).skip
      (!Text.holdsOf endsTagName ·)).length_seek_le endsTag
    unfold outlineMarkup
    dsimp only
    split
    · rw [Place.length_forward]
      omega
    · omega
  | startTag =>
    have hskip := ((here.forward (Text.bytes Opening.startTag.text).length).skip
      (!Text.holdsOf endsTagName ·)).length_skip_le (Text.holdsOf isSpace)
    have htail := length_outlineAttributes_le (((here.forward
      (Text.bytes Opening.startTag.text).length).skip (!Text.holdsOf endsTagName ·)).skip
        (Text.holdsOf isSpace))
    exact Nat.le_trans htail (Nat.le_trans hskip hname)
  | _ => exact length_outlineEnclosed_le _ _

/-- Every token takes a byte. -/
theorem length_outlineToken_lt (pending : Option RawElement) {here : Place} (h : here.rest ≠ []) :
    (outlineToken pending here).next.rest.length < here.rest.length := by
  have hmore := List.length_pos_iff.2 h
  have hplain : (outlineToken.markupOrText here).next.rest.length < here.rest.length := by
    unfold outlineToken.markupOrText
    split
    · exact length_outlineMarkup_lt _ h
    · have hseek := (here.forward 1).length_seek_le opensMarkupBytes
      rw [Place.length_forward] at hseek
      exact Nat.lt_of_le_of_lt hseek (by omega)
  cases pending with
  | none => exact hplain
  | some element =>
    unfold outlineToken
    dsimp only
    split
    · next hcontent =>
      have hpassed : 0 < Text.seek (closesElementBytes element) here.rest :=
        Nat.lt_of_add_lt_add_left hcontent
      dsimp only [Place.seek]
      rw [Place.length_forward]
      omega
    · exact hplain

/-- The outlines of the tokens from a place on. -/
def outlinesFrom (pending : Option RawElement) (here : Place) : List Outline :=
  if _more : here.rest = [] then []
  else
    let read := outlineToken pending here
    ⟨read.item.1, here.spanTo read.next⟩ :: outlinesFrom read.item.2 read.next
termination_by here.rest.length
decreasing_by exact length_outlineToken_lt pending _more

/-- The outlines of the tokens of a document, given as bytes. -/
def outlines (bs : List UInt8) : List Outline :=
  outlinesFrom none ⟨0, bs⟩

end HtmlLint
