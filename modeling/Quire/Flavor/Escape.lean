import Quire.Text.Cut

/-! Plain text inside HTML: as the content of an element, and as the value of an attribute. -/
namespace Quire.Html

def entity (c : Char) : List Char :=
  if c = '&' then "&amp;".toList
  else if c = '<' then "&lt;".toList
  else if c = '>' then "&gt;".toList
  else if c = '"' then "&quot;".toList
  else [c]

/-- A text as element content. The ampersand is replaced first, so that no entity is touched. -/
def escape (s : String) : String :=
  s |> Text.replace "&" "&amp;"
    |> Text.replace "<" "&lt;"
    |> Text.replace ">" "&gt;"
    |> Text.replace "\"" "&quot;"

/-- Markup without its tags, for an attribute in double quotes. -/
def attributeChars (inTag : Bool) : List Char → List Char
  | [] => []
  | c :: cs =>
    if c = '<' then attributeChars true cs
    else if inTag then attributeChars (c != '>') cs
    else if c = '"' then "&quot;".toList ++ attributeChars false cs
    else if c = '\n' then ' ' :: attributeChars false cs
    else c :: attributeChars false cs

def attributeText (markup : String) : String := .ofList (attributeChars false markup.toList)

end Quire.Html
