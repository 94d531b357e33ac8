import HtmlLint.Text.Characters

/-!
# Open elements

The elements that enclose a place in a document, innermost first. A start tag opens its element
unless the tag closes itself or the element never has content. An end tag closes the nearest open
element of its name, with all that were opened inside it; without such an element it closes none.
-/

namespace HtmlLint

/-- The elements that never have content. -/
def voidElements : List (List Char) :=
  ["area", "base", "br", "col", "embed", "hr", "img", "input", "link", "meta", "param", "source",
    "track", "wbr"].map String.toList

/-- The names of the open elements, innermost first. -/
abbrev OpenElements :=
  List (List Char)

namespace OpenElements

/-- The open elements after a start tag. -/
def enter (outer : OpenElements) (name : List Char) (selfClosing : Bool) : OpenElements :=
  if selfClosing || voidElements.contains name then outer else name :: outer

/-- The open elements after an end tag. -/
def leave (inner : OpenElements) (name : List Char) : OpenElements :=
  match inner.dropWhile (· != name) with
  | [] => inner
  | _ :: outer => outer

end OpenElements

end HtmlLint
