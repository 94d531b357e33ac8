import HtmlLint.Rule.Basic
import HtmlLint.Text.Characters

/-!
# Attributes as they should be written

Two rules look at every attribute by itself: its name has no upper case character, and its value, if
it has one, stands between double quotes.
-/

namespace HtmlLint.Rule

/-- A rule that complains about every attribute with a property, by its name. -/
def ofAttribute (id description : String) (offends : Attribute → Bool)
    (message : String → String) : Rule :=
  .stateless id description [(.kind .attr, fun e =>
    match e.detail with
    | .attr _ item =>
      if offends item then [⟨.error, message (String.ofList item.name), e.location, e.raw⟩] else []
    | _ => [])]

def hasUppercaseName (item : Attribute) : Bool :=
  item.name.any Text.isUppercase

def attrLowercase : Rule :=
  ofAttribute "attr-lowercase" "All attribute names must be in lowercase." hasUppercaseName
    fun name => "The attribute name of [ " ++ name ++ " ] must be in lowercase."

/-- The attribute has a value that does not stand between double quotes. -/
def lacksDoubleQuotes (item : Attribute) : Bool :=
  match item.quote with
  | .double | .missing => false
  | .single => true
  | .unquoted => !item.value.isEmpty

def attrDoubleQuotes : Rule :=
  ofAttribute "attr-value-double-quotes" "Attribute values must be in double quotes."
    lacksDoubleQuotes fun name =>
      "The value of attribute [ " ++ name ++ " ] must be in double quotes."

end HtmlLint.Rule
