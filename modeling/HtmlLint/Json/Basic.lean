/-!
# JSON values and their text

A value keeps the members of an object in the order in which they stand, and a number by the text
it was written with. There are two layouts: all on one line without any space, and one item or
member a line, indented by two spaces for every level.
-/

namespace HtmlLint

/-- A JSON value. -/
inductive Json where
  | null
  | bool (b : Bool)
  /-- A number, by its text. -/
  | number (literal : List Char)
  | string (s : List Char)
  | array (items : List Json)
  | object (members : List (List Char × Json))
  deriving Repr

namespace Json

/-- A natural number. -/
def ofNat (n : Nat) : Json :=
  number (Nat.toDigits 10 n)

/-- A text. -/
def ofString (s : String) : Json :=
  string s.toList

/-- An object with these members. -/
def record (members : List (String × Json)) : Json :=
  object (members.map fun (name, value) => (name.toList, value))

/-! ## Text of strings -/

/-- The hexadecimal digit of `n % 16`. -/
def hexDigit (n : Nat) : Char :=
  Nat.digitChar (n % 16)

/-- One character inside a string. -/
def escapedChar (c : Char) : List Char :=
  if c = '"' then ['\\', '"']
  else if c = '\\' then ['\\', '\\']
  else if c = '\x08' then ['\\', 'b']
  else if c = '\x0c' then ['\\', 'f']
  else if c = '\n' then ['\\', 'n']
  else if c = '\r' then ['\\', 'r']
  else if c = '\t' then ['\\', 't']
  else if c.toNat < 0x20 then ['\\', 'u', '0', '0', hexDigit (c.toNat / 16), hexDigit c.toNat]
  else [c]

/-- A string between its quotes. -/
def stringText (s : List Char) : List Char :=
  '"' :: (s.flatMap escapedChar ++ ['"'])

/-! ## Layout -/

/-- Where line breaks and spaces stand. -/
inductive Layout where
  | compact
  | indented
  deriving DecidableEq, Repr

namespace Layout

/-- The text between the name of a member and its value. -/
def colon : Layout → List Char
  | compact => [':']
  | indented => [':', ' ']

/-- Starts a line at a level. -/
def newline : Layout → Nat → List Char
  | compact, _ => []
  | indented, depth => '\n' :: List.replicate (2 * depth) ' '

/-- The parts of an array or object at a level, between its brackets. -/
def enclose (layout : Layout) (depth : Nat) (opener closer : Char) (parts : List (List Char)) :
    List Char :=
  match parts with
  | [] => [opener, closer]
  | parts =>
    let lead := layout.newline (depth + 1)
    opener :: (lead ++ (List.intercalate (',' :: lead) parts
      ++ (layout.newline depth ++ [closer])))

end Layout

mutual

/-- The text of a value at a level. -/
def render (layout : Layout) (depth : Nat) : Json → List Char
  | null => ['n', 'u', 'l', 'l']
  | bool true => ['t', 'r', 'u', 'e']
  | bool false => ['f', 'a', 'l', 's', 'e']
  | number literal => literal
  | string s => stringText s
  | array items => layout.enclose depth '[' ']' (renderItems layout (depth + 1) items)
  | object members =>
    layout.enclose depth '\x7b' '\x7d' (renderMembers layout (depth + 1) members)

/-- The texts of the items of an array. -/
def renderItems (layout : Layout) (depth : Nat) : List Json → List (List Char)
  | [] => []
  | item :: items => render layout depth item :: renderItems layout depth items

/-- The texts of the members of an object. -/
def renderMembers (layout : Layout) (depth : Nat) : List (List Char × Json) → List (List Char)
  | [] => []
  | (name, value) :: members =>
    (stringText name ++ (layout.colon ++ render layout depth value))
      :: renderMembers layout depth members

end

/-- A value on one line. -/
def compact (value : Json) : String :=
  String.ofList (value.render .compact 0)

/-- A value with one item or member a line. -/
def pretty (value : Json) : String :=
  String.ofList (value.render .indented 0)

end Json

end HtmlLint
