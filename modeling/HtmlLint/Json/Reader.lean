import HtmlLint.Json.Basic
import HtmlLint.Json.Fault
import HtmlLint.Json.Numeral

/-!
# Reading JSON text

`Json.read` accepts one value with space around it. Arrays and objects may be nested 127 deep; the
nesting that is left bounds the recursion. A fault is found at the first byte that cannot go on,
and counts it as read, except that a fault of a finished part shows right after that part.
-/

namespace HtmlLint.Json

/-- A place in the text: the number of bytes read, and what is left. -/
structure Place where
  index : Nat
  rest : List Char

/-- A fault by the number of bytes read when it showed. -/
structure Misread where
  cause : Cause
  index : Nat

namespace Place

/-- A fault of what was read. -/
def behind (here : Place) (cause : Cause) : Misread :=
  ⟨cause, here.index⟩

/-- A fault of the next byte, or of its absence. -/
def ahead (here : Place) (cause : Cause) : Misread :=
  ⟨cause, if here.rest.isEmpty then here.index else here.index + 1⟩

/-- Reads `n` characters of one byte each. -/
def skip (here : Place) (n : Nat) : Place :=
  ⟨here.index + n, here.rest.drop n⟩

end Place

/-- The space allowed between the parts of a value. -/
def isSpace (c : Char) : Bool :=
  c == ' ' || c == '\n' || c == '\t' || c == '\r'

/-- Reads space. -/
def Place.skipSpace (here : Place) : Place :=
  here.skip (here.rest.takeWhile isSpace).length

/-! ## Words -/

/-- Reads the characters of a word. -/
def readWord : List Char → Place → Except Misread Place
  | [], here => .ok here
  | c :: word, here =>
    match here.rest with
    | [] => .error (here.behind .endInValue)
    | d :: _ => if d = c then readWord word (here.skip 1) else .error (here.ahead .expectedIdent)

/-! ## Strings -/

/-- The value of a hexadecimal digit. -/
def hexValue? (c : Char) : Option Nat :=
  if '0' ≤ c && c ≤ '9' then some (c.toNat - '0'.toNat)
  else if 'a' ≤ c && c ≤ 'f' then some (c.toNat - 'a'.toNat + 10)
  else if 'A' ≤ c && c ≤ 'F' then some (c.toNat - 'A'.toNat + 10)
  else none

/-- Reads four hexadecimal digits. All four bytes are read before they are looked at. -/
def readHex (here : Place) : Except Misread (Nat × Place) :=
  if Text.byteLength (here.rest.take 4) < 4 then
    .error ⟨.endInString, here.index + Text.byteLength here.rest⟩
  else
    match here.rest.take 4 |>.mapM hexValue? with
    | some digits => .ok (digits.foldl (· * 16 + ·) 0, here.skip 4)
    | none => .error ⟨.invalidEscape, here.index + 4⟩

/-- The first half of a pair of code units. -/
def isHighSurrogate (n : Nat) : Bool :=
  0xD800 ≤ n && n ≤ 0xDBFF

/-- The second half of a pair of code units. -/
def isLowSurrogate (n : Nat) : Bool :=
  0xDC00 ≤ n && n ≤ 0xDFFF

/-- Reads the second half of a pair whose first half is `high`. -/
def readLowSurrogate (high : Nat) (here : Place) : Except Misread (Char × Place) :=
  match here.rest with
  | [] => .error (here.behind .endInString)
  | '\\' :: rest =>
    match rest with
    | [] => .error ((here.skip 1).behind .endInString)
    | 'u' :: _ => do
      let (low, here) ← readHex (here.skip 2)
      if isLowSurrogate low then
        .ok (Char.ofNat ((high - 0xD800) * 0x400 + (low - 0xDC00) + 0x10000), here)
      else .error (here.behind .loneSurrogate)
    | _ => .error ((here.skip 1).ahead .unexpectedEndOfHexEscape)
  | _ => .error (here.ahead .unexpectedEndOfHexEscape)

/-- Reads a character given by its code after `\u`. -/
def readCode (here : Place) : Except Misread (Char × Place) := do
  let (n, here) ← readHex here
  if isLowSurrogate n then .error (here.behind .loneSurrogate)
  else if isHighSurrogate n then readLowSurrogate n here
  else .ok (Char.ofNat n, here)

/-- The character that a short escape stands for. -/
def shortEscape? (c : Char) : Option Char :=
  if c = '"' then some '"'
  else if c = '\\' then some '\\'
  else if c = '/' then some '/'
  else if c = 'b' then some '\x08'
  else if c = 'f' then some '\x0c'
  else if c = 'n' then some '\n'
  else if c = 'r' then some '\r'
  else if c = 't' then some '\t'
  else none

/-- Reads an escape after its backslash. -/
def readEscape (here : Place) : Except Misread (Char × Place) :=
  match here.rest with
  | [] => .error (here.behind .endInString)
  | c :: _ =>
    if c = 'u' then readCode (here.skip 1)
    else
      match shortEscape? c with
      | some d => .ok (d, here.skip 1)
      | none => .error (here.ahead .invalidEscape)

/-- Reads a string after its opening quote. Each round takes a character or an escape, so `fuel`,
the number of characters left, does not run out. -/
def readString : Nat → Place → Except Misread (List Char × Place)
  | 0, here => .error (here.behind .endInString)
  | fuel + 1, here =>
    match here.rest with
    | [] => .error (here.behind .endInString)
    | c :: rest =>
      if c = '"' then .ok ([], here.skip 1)
      else if c = '\\' then do
        let (d, here) ← readEscape (here.skip 1)
        let (s, here) ← readString fuel here
        .ok (d :: s, here)
      else if c.toNat < 0x20 then .error (here.ahead .controlCharacter)
      else do
        let (s, here) ← readString fuel ⟨here.index + c.utf8Size, rest⟩
        .ok (c :: s, here)

/-! ## Numbers -/

/-- A number that ends here. -/
def finishNumber (n : Numeral) (here : Place) : Except Misread Place :=
  if n.inRange then .ok here else .error (here.behind .numberOutOfRange)

/-- The largest exponent that is read as such. -/
def maxExponent : Nat :=
  Nat.pow 2 31 - 1

/-- Reads the digits of an exponent, of which `power` is the value so far. Past the largest exponent
a positive one is out of range at once, unless the number is zero. -/
def readPower (n : Numeral) (negative : Bool) (power index : Nat) :
    List Char → Except Misread Place
  | [] => finishNumber (n.scale (if negative then -power else power)) ⟨index, []⟩
  | c :: rest =>
    if c.isDigit then
      let more := power * 10 + digitValue c
      if more ≤ maxExponent then readPower n negative more (index + 1) rest
      else if n.significand ≠ 0 && !negative then .error ⟨.numberOutOfRange, index + 1⟩
      else
        let digits := rest.takeWhile Char.isDigit
        .ok ⟨index + 1 + digits.length, rest.dropWhile Char.isDigit⟩
    else finishNumber (n.scale (if negative then -power else power)) ⟨index, c :: rest⟩

/-- Reads an exponent after its `e`. -/
def readExponent (n : Numeral) (here : Place) : Except Misread Place :=
  let negative := here.rest.head? == some '-'
  let here := if negative || here.rest.head? == some '+' then here.skip 1 else here
  match here.rest with
  | [] => .error (here.behind .endInValue)
  | c :: rest =>
    if c.isDigit then readPower n negative (digitValue c) (here.index + 1) rest
    else .error (here.ahead .invalidNumber)

/-- Reads an exponent if there is one. -/
def readExponentIfAny (n : Numeral) (here : Place) : Except Misread Place :=
  match here.rest with
  | c :: _ => if c = 'e' || c = 'E' then readExponent n (here.skip 1) else finishNumber n here
  | [] => finishNumber n here

/-- Reads the digits after a point. -/
def readFraction (n : Numeral) (here : Place) : Except Misread Place :=
  let digits := here.rest.takeWhile Char.isDigit
  if digits.isEmpty then
    .error (here.ahead (if here.rest.isEmpty then .endInValue else .invalidNumber))
  else readExponentIfAny (n.withFraction digits) (here.skip digits.length)

/-- Reads what may follow the digits before the point. -/
def readFractionIfAny (n : Numeral) (here : Place) : Except Misread Place :=
  match here.rest with
  | '.' :: _ => readFraction n (here.skip 1)
  | _ => readExponentIfAny n here

/-- Reads a number after its sign. A zero in front is followed by no other digit. -/
def readUnsigned (here : Place) : Except Misread Place :=
  match here.rest with
  | [] => .error (here.behind .endInValue)
  | c :: rest =>
    if c = '0' then
      if rest.head?.any Char.isDigit then .error ((here.skip 1).ahead .invalidNumber)
      else readFractionIfAny ⟨0, 0⟩ (here.skip 1)
    else if c.isDigit then
      let digits := here.rest.takeWhile Char.isDigit
      readFractionIfAny (Numeral.ofWhole 0 digits) (here.skip digits.length)
    else .error (here.ahead .invalidNumber)

/-- Reads a number. -/
def readNumber (here : Place) : Except Misread (Json × Place) := do
  let after ← readUnsigned (if here.rest.head? == some '-' then here.skip 1 else here)
  .ok (.number (here.rest.take (after.index - here.index)), after)

/-! ## Arrays and objects -/

/-- Reads the items of an array from an item on. Each round takes an item, so `fuel`, the number of
characters left, does not run out. -/
def readItems (readItem : Place → Except Misread (Json × Place)) :
    Nat → Place → Except Misread (List Json × Place)
  | 0, here => .error (here.behind .endInList)
  | fuel + 1, here => do
    let (item, here) ← readItem here
    let here := here.skipSpace
    match here.rest with
    | [] => .error (here.behind .endInList)
    | c :: _ =>
      if c = ']' then .ok ([item], here.skip 1)
      else if c = ',' then
        let here := (here.skip 1).skipSpace
        match here.rest with
        | [] => .error (here.behind .endInValue)
        | d :: _ =>
          if d = ']' then .error (here.ahead .trailingComma)
          else do
            let (items, here) ← readItems readItem fuel here
            .ok (item :: items, here)
      else .error (here.ahead .expectedListCommaOrEnd)

/-- Reads an array after its opening bracket. -/
def readArray (readItem : Place → Except Misread (Json × Place)) (here : Place) :
    Except Misread (List Json × Place) :=
  let here := here.skipSpace
  match here.rest with
  | [] => .error (here.behind .endInList)
  | c :: _ =>
    if c = ']' then .ok ([], here.skip 1) else readItems readItem here.rest.length here

/-- Reads a member of an object from its opening quote on. -/
def readMember (readItem : Place → Except Misread (Json × Place)) (here : Place) :
    Except Misread ((List Char × Json) × Place) := do
  let (name, here) ← readString here.rest.length (here.skip 1)
  let here := here.skipSpace
  match here.rest with
  | [] => .error (here.behind .endInObject)
  | c :: _ =>
    if c = ':' then do
      let (value, here) ← readItem (here.skip 1)
      .ok ((name, value), here)
    else .error (here.ahead .expectedColon)

/-- Reads the members of an object from a quote on. Each round takes a member, so `fuel`, the number
of characters left, does not run out. -/
def readMembers (readItem : Place → Except Misread (Json × Place)) :
    Nat → Place → Except Misread (List (List Char × Json) × Place)
  | 0, here => .error (here.behind .endInObject)
  | fuel + 1, here => do
    let (member, here) ← readMember readItem here
    let here := here.skipSpace
    match here.rest with
    | [] => .error (here.behind .endInObject)
    | c :: _ =>
      if c = '\x7d' then .ok ([member], here.skip 1)
      else if c = ',' then
        let here := (here.skip 1).skipSpace
        match here.rest with
        | [] => .error (here.behind .endInValue)
        | d :: _ =>
          if d = '"' then do
            let (members, here) ← readMembers readItem fuel here
            .ok (member :: members, here)
          else if d = '\x7d' then .error (here.ahead .trailingComma)
          else .error (here.ahead .keyNotString)
      else .error (here.ahead .expectedObjectCommaOrEnd)

/-- Reads an object after its opening brace. -/
def readObject (readItem : Place → Except Misread (Json × Place)) (here : Place) :
    Except Misread (List (List Char × Json) × Place) :=
  let here := here.skipSpace
  match here.rest with
  | [] => .error (here.behind .endInObject)
  | c :: _ =>
    if c = '\x7d' then .ok ([], here.skip 1)
    else if c = '"' then readMembers readItem here.rest.length here
    else .error (here.ahead .keyNotString)

/-! ## Values -/

/-- Reads a value that has no parts. -/
def readScalar (here : Place) : Except Misread (Json × Place) :=
  match here.rest with
  | [] => .error (here.behind .endInValue)
  | c :: rest =>
    if c = 'n' then word ['u', 'l', 'l'] .null
    else if c = 't' then word ['r', 'u', 'e'] (.bool true)
    else if c = 'f' then word ['a', 'l', 's', 'e'] (.bool false)
    else if c = '-' || c.isDigit then readNumber here
    else if c = '"' then do
      let (s, here) ← readString rest.length (here.skip 1)
      .ok (.string s, here)
    else .error (here.ahead .expectedValue)
where
  /-- A value written as a word. -/
  word (letters : List Char) (value : Json) : Except Misread (Json × Place) := do
    let here ← readWord letters (here.skip 1)
    .ok (value, here)

/-- Reads a value in which at most `depth` more arrays and objects may be nested. -/
def readValue : Nat → Place → Except Misread (Json × Place)
  | 0, here =>
    let here := here.skipSpace
    match here.rest with
    | '[' :: _ | '\x7b' :: _ => .error (here.ahead .tooDeep)
    | _ => readScalar here
  | depth + 1, here =>
    let here := here.skipSpace
    match here.rest with
    | '[' :: _ => do
      let (items, here) ← readArray (readValue depth) (here.skip 1)
      .ok (.array items, here)
    | '\x7b' :: _ => do
      let (members, here) ← readObject (readValue depth) (here.skip 1)
      .ok (.object members, here)
    | _ => readScalar here

/-- How deep arrays and objects may be nested. -/
def maxDepth : Nat :=
  127

/-- Reads a whole text. -/
def readWhole (source : List Char) : Except Misread Json := do
  let (value, here) ← readValue maxDepth ⟨0, source⟩
  let here := here.skipSpace
  if here.rest.isEmpty then .ok value else .error (here.ahead .trailingCharacters)

/-- The value that a text stands for. -/
def read (source : List Char) : Except Fault Json :=
  match readWhole source with
  | .ok value => .ok value
  | .error misread => .error (.inText source misread.cause misread.index)

end HtmlLint.Json
