import Quire.Bibliography

/-! Citations: which entries a list of keys names, and how a style prints them. -/
namespace Quire

inductive CiteStyle
  /-- All in parentheses: `(Smith, 2020)`. -/
  | parenthetical
  /-- The year in parentheses: `Smith (2020)`. -/
  | textual
  /-- No parentheses: `Smith, 2020`. -/
  | bare
deriving DecidableEq, Repr

namespace CiteStyle

def ofCommand? : String → Option CiteStyle
  | "citep" => some parenthetical
  | "citet" | "cite" => some textual
  | "citealp" => some bare
  | _ => none

end CiteStyle

namespace Citation

def entries (keys : String) (bib : Bibliography) : Except RenderFault (List BibEntry) :=
  let keys := ((Text.splitOn ',' keys).map Text.trim).filter (!·.isEmpty)
  keys.mapM fun key =>
    match bib.get? key with
    | some entry => .ok entry
    | none => .error (.unknownKey key)

/-- The name and year of a short form that ends in a comma, a blank and a year. -/
def splitYear? : List Char → Option (List Char × List Char)
  | [] => none
  | c :: cs =>
    match c, cs with
    | ',', ' ' :: rest =>
      match Bibliography.year? rest with
      | some (year, []) => some ([], year)
      | _ => (splitYear? cs).map fun (name, year) => (c :: name, year)
    | _, _ => (splitYear? cs).map fun (name, year) => (c :: name, year)

def text (style : CiteStyle) (entry : BibEntry) : String :=
  match style with
  | .textual =>
    match splitYear? entry.short.toList with
    | some (name, year) => .ofList (name ++ [' ', '('] ++ year ++ [')'])
    | none => entry.short
  | .parenthetical | .bare => entry.short

/-- One note follows the citations; of two, the first goes in front. -/
def splitNotes : List String → String × String
  | [] => ("", "")
  | [post] => ("", post)
  | pre :: post :: _ => (pre, post)

def assemble (style : CiteStyle) (items notes : List String) : String :=
  let (pre, post) := splitNotes notes
  let text := (if pre.isEmpty then "" else pre ++ " ") ++ "; ".intercalate items ++
    (if post.isEmpty then "" else ", " ++ post)
  match style with
  | .parenthetical => "(" ++ text ++ ")"
  | .textual | .bare => text

end Citation
end Quire
