import HtmlLint.Token.Scan

/-!
# Questions to a scanner

A scanner holds a document and a cursor in it. Besides handing out the next token it answers what
lies ahead of the cursor and where markup opens. Offsets in questions are 64-bit words. A sum of
words that does not fit a word stops the program, so a question that leads to one is not answered.
-/

namespace HtmlLint

/-- Why a computation stops without an answer. -/
inductive Halt where
  | overflow
  deriving DecidableEq, Repr

/-- The sum of two words. -/
def addWords (a b : UInt64) : Except Halt UInt64 :=
  if a.toNat + b.toNat < UInt64.size then .ok (a + b) else .error .overflow

/-- A document with a place in it. -/
structure Scanner where
  source : List Char
  cursor : Cursor
  deriving DecidableEq, Repr

namespace Scanner

/-- A scanner at the start of `source`. -/
def atStart (source : List Char) : Scanner :=
  ⟨source, .atStart source⟩

/-- Nothing is left to scan. -/
def atEnd (here : Scanner) : Bool :=
  here.cursor.rest.isEmpty

/-- The next token, and what was noted about it, with the scanner after it. -/
def next? (here : Scanner) : Option (Token × List Notice × Scanner) :=
  here.cursor.next?.map fun step => (step.token, step.notices, { here with cursor := step.next })

/-- The byte `n` bytes after the cursor, if there is one. -/
def byteAhead (here : Scanner) (n : UInt64) : Except Halt (Option UInt8) := do
  let offset ← addWords here.cursor.offset.toUInt64 n
  return (Text.bytes here.source)[offset.toNat]?

/-- The text after the cursor starts with `s`. -/
def aheadIs (here : Scanner) (s : List Char) : Bool :=
  Text.startsWith s here.cursor.rest

/-- Markup opens at offset `n` of the document. -/
def opensMarkupAt (here : Scanner) (n : UInt64) : Bool :=
  Text.isBoundary here.source n.toNat && opensMarkup (Text.dropBytes n.toNat here.source)

end Scanner

end HtmlLint
