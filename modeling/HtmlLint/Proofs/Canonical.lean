import HtmlLint.Token.Scan
import Mathlib.Data.List.Infix

/-!
# Canonical documents

A canonical document is a list of items, each with one written form. Every item carries the proof
that its parts may be written as they are: a comment does not hold its own closing text, a name
holds no character that ends it. What depends on the neighbours of an item is a condition on the
list, `coherent`: text does not follow text, and the content of a raw element stands between its
start tag and its end tag, or the end of the document.

* `Item.render` — the written form of an item.
* `tokensFrom` — the tokens that a list of items stands for, with every span in its place.
-/

namespace HtmlLint.Canonical

/-! ## Parts of tags -/

/-- The name of a tag starts with a letter and holds no character that ends it. -/
structure TagName where
  text : List Char
  letter : startsWithLetter text = true
  plain : ∀ c ∈ text, endsTagName c = false

/-- What is written after the name of an attribute. -/
inductive WrittenValue where
  | double (value : List Char) (plain : '"' ∉ value)
  | single (value : List Char) (plain : '\x27' ∉ value)
  | unquoted (value : List Char) (nonempty : value ≠ [])
      (plain : ∀ c ∈ value, isUnquotedChar c = true)
      (bare : value.head? ≠ some '"' ∧ value.head? ≠ some '\x27')
  | missing

namespace WrittenValue

def text : WrittenValue → List Char
  | double value _ | single value _ | unquoted value .. => value
  | missing => []

def quote : WrittenValue → Quote
  | double .. => .double
  | single .. => .single
  | unquoted .. => .unquoted
  | missing => .missing

def render : WrittenValue → List Char
  | double value _ => '=' :: '"' :: (value ++ ['"'])
  | single value _ => '=' :: '\x27' :: (value ++ ['\x27'])
  | unquoted value .. => '=' :: value
  | missing => []

end WrittenValue

/-- An attribute: its name, which does not start like markup, and its value. -/
structure WrittenAttribute where
  name : List Char
  nonempty : name ≠ []
  plain : ∀ c ∈ name, endsAttributeName c = false
  noMarkup : name.head? ≠ some '<'
  value : WrittenValue

namespace WrittenAttribute

def render (a : WrittenAttribute) : List Char :=
  a.name ++ a.value.render

/-- The attribute when its text starts at `offset`. -/
def place (offset : Nat) (a : WrittenAttribute) : Attribute :=
  ⟨a.name, a.value.text, a.value.quote, a.render, .ofText offset a.render⟩

/-- What is written after the name of a start tag: each attribute after a space, then the end. -/
def renderAll (attributes : List WrittenAttribute) (selfClosing : Bool) : List Char :=
  attributes.flatMap (fun a => ' ' :: a.render) ++ if selfClosing then [' ', '/', '>'] else ['>']

/-- The attributes of a start tag whose name ends at `offset`. -/
def placeAll (offset : Nat) : List WrittenAttribute → List Attribute
  | [] => []
  | a :: attributes =>
    a.place (offset + 1) :: placeAll (offset + 1 + Text.byteLength a.render) attributes

end WrittenAttribute

/-! ## Items -/

/-- `s` starts with an end tag of `element`, up to the character that ends its name. -/
def startsEndTag (element : RawElement) (s : List Char) : Bool :=
  match Text.after? ['<', '/'] s with
  | none => false
  | some s =>
    let length := element.name.length
    Text.sameIgnoringCase (s.take length) element.name && (s.drop length).head?.any endsTagName

/-- One item of a document. -/
inductive Item where
  | startTag (name : TagName) (attributes : List WrittenAttribute) (selfClosing : Bool)
  | endTag (name : TagName)
  | comment (data : List Char) (plain : ¬ ['-', '-', '>'] <:+: data)
      (notAbrupt : ¬ ['>'] <+: data ∧ ¬ ['-', '>'] <+: data)
  | cdata (data : List Char) (plain : ¬ [']', ']', '>'] <:+: data)
  /-- The bare markup around a condition. -/
  | revealed (data : List Char) (plain : ¬ [']', '>'] <:+: data)
      (notCdata : ¬ ['C', 'D', 'A', 'T', 'A', '['] <+: data)
  | declaration (data : List Char) (plain : '>' ∉ data)
      (notOther : ¬ ['-', '-'] <+: data ∧ ¬ ['['] <+: data)
  /-- Markup that starts with `<?`. -/
  | instruction (data : List Char) (plain : '>' ∉ data)
  | text (run : List Char) (nonempty : run ≠ []) (plain : ∀ s ∈ run.tails, opensMarkup s = false)
  /-- The content of a raw element. -/
  | content (element : RawElement) (run : List Char) (nonempty : run ≠ [])
      (plain : ∀ s ∈ run.tails, startsEndTag element s = false)

namespace Item

def render : Item → List Char
  | startTag name attributes selfClosing =>
    '<' :: (name.text ++ WrittenAttribute.renderAll attributes selfClosing)
  | endTag name => '<' :: '/' :: (name.text ++ ['>'])
  | comment data .. => ['<', '!', '-', '-'] ++ (data ++ ['-', '-', '>'])
  | cdata data _ => ['<', '!', '[', 'C', 'D', 'A', 'T', 'A', '['] ++ (data ++ [']', ']', '>'])
  | revealed data .. => ['<', '!', '['] ++ (data ++ [']', '>'])
  | declaration data .. => ['<', '!'] ++ (data ++ ['>'])
  | instruction data _ => ['<', '?'] ++ (data ++ ['>'])
  | text run .. => run
  | content _ run .. => run

/-- What the item is when it starts at `offset`. -/
def kind (offset : Nat) : Item → Token.Kind
  | startTag name attributes selfClosing =>
    .startTag name.text
      (WrittenAttribute.placeAll (offset + 1 + Text.byteLength name.text) attributes) selfClosing
  | endTag name => .endTag name.text
  | comment data .. =>
    if ['[', 'i', 'f'] <+: data ∨ ['<', '!', '[', 'e', 'n', 'd', 'i', 'f', ']'] <:+ data then
      .conditional data
    else .comment data
  | cdata data _ => .cdata data none
  | revealed data .. => .conditional data
  | declaration data .. => .declaration data
  | instruction data _ => .comment ('?' :: data)
  | text .. => .text
  | content element run .. => .cdata run (some element)

/-- The token of the item when it starts at `offset`. -/
def token (offset : Nat) (item : Item) : Token :=
  ⟨item.kind offset, item.render, .ofText offset item.render⟩

def isText : Item → Bool
  | text .. => true
  | _ => false

/-- The item is an end tag of `element`. -/
def isEndOf (element : RawElement) : Item → Bool
  | endTag name => Text.sameIgnoringCase name.text element.name
  | _ => false

/-- The element whose content comes after the item. -/
def opens? : Item → Option RawElement
  | startTag name _ false => RawElement.ofName? name.text
  | _ => none

end Item

/-! ## Documents -/

/-- The text of a list of items. -/
def render (items : List Item) : List Char :=
  items.flatMap Item.render

/-- The tokens that the items stand for when the first of them starts at `offset`. -/
def tokensFrom (offset : Nat) : List Item → List Token
  | [] => []
  | item :: items =>
    item.token offset :: tokensFrom (offset + Text.byteLength item.render) items

/-- The items may stand next to each other, after the start tag of the raw element `pending` if
there is one. Content that ends the document must not end with the name of its end tag. -/
def coherent : Option RawElement → List Item → Bool
  | _, [] => true
  | none, .content .. :: _ => false
  | none, item :: items =>
    !(item.isText && items.head?.any Item.isText) && coherent item.opens? items
  | some element, .content other run .. :: items =>
    other == element && coherent none items
      && if items.isEmpty then run.tails.all (!closesElement element ·)
        else items.head?.any (Item.isEndOf element)
  | some element, item :: items => item.isEndOf element && coherent none items

end HtmlLint.Canonical
