import HtmlLint.Span
import HtmlLint.Text.Characters
import HtmlLint.Text.Quoted

/-!
# Tokens

A document is a sequence of tokens, each with the text it was read from and the span of that text.
Names, values and data are kept as written: nothing is decoded and no case is changed.
-/

namespace HtmlLint

/-- How the value of an attribute is written. -/
inductive Quote where
  | double
  | single
  | unquoted
  /-- There is no value. -/
  | missing
  deriving DecidableEq, Repr

/-- An attribute of a start tag. Its text runs from its name to the end of its value. -/
structure Attribute where
  name : List Char
  value : List Char
  quote : Quote
  raw : List Char
  span : Span
  deriving DecidableEq, Repr

/-- The elements whose content is plain characters up to their end tag. -/
inductive RawElement where
  | script
  | style
  deriving DecidableEq, Repr

namespace RawElement

/-- The name of the element. -/
def name : RawElement → List Char
  | script => ['s', 'c', 'r', 'i', 'p', 't']
  | style => ['s', 't', 'y', 'l', 'e']

/-- The raw element with this name in any case. -/
def ofName? (name : List Char) : Option RawElement :=
  if Text.sameIgnoringCase name script.name then some script
  else if Text.sameIgnoringCase name style.name then some style
  else none

end RawElement

/-- What a token is, with the parts of its text that matter. -/
inductive Token.Kind where
  | startTag (name : List Char) (attributes : List Attribute) (selfClosing : Bool)
  | endTag (name : List Char)
  | text
  | comment (data : List Char)
  /-- A comment with a condition, or the bare markup around a condition. -/
  | conditional (data : List Char)
  | declaration (data : List Char)
  /-- Plain characters: a section of them, or the content of `element`. -/
  | cdata (data : List Char) (element : Option RawElement)
  deriving DecidableEq, Repr

/-- One token of a document. -/
structure Token where
  kind : Token.Kind
  raw : List Char
  span : Span
  deriving DecidableEq, Repr

namespace Token

/-- The token is text without anything visible. -/
def isBlankText (t : Token) : Bool :=
  t.kind == .text && t.raw.all Text.isBlank

/-- The kind of the token with its parts on one line: tags by their names, the rest quoted. -/
def Kind.summary (raw : List Char) : Kind → String
  | startTag name attributes selfClosing =>
    "StartTag(" ++ String.ofList name
      ++ String.join (attributes.map fun a => " " ++ String.ofList a.name)
      ++ (if selfClosing then " /" else "") ++ ")"
  | endTag name => "EndTag(" ++ String.ofList name ++ ")"
  | text => "Text(" ++ Text.quoted raw ++ ")"
  | comment data => "Comment(" ++ Text.quoted data ++ ")"
  | conditional data => "ConditionalComment(" ++ Text.quoted data ++ ")"
  | declaration data => "Doctype(" ++ Text.quoted data ++ ")"
  | cdata data _ => "CData(" ++ Text.quoted data ++ ")"

/-- The token on one line, with its span. -/
def summary (t : Token) : String :=
  t.kind.summary t.raw ++ " @" ++ toString t.span.start ++ ".." ++ toString t.span.stop

end Token

end HtmlLint
