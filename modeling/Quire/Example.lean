import Quire.Asset

/-! Code examples as they are shown: rows of cells, each with code, output, an image or a table. -/
namespace Quire

inductive Lang
  | py
  | r
deriving DecidableEq, Repr

namespace Lang

def extension : Lang → String
  | py => "py"
  | r => "r"

def title : Lang → String
  | py => "Python"
  | r => "R"

def fence : Lang → String
  | py => "python"
  | r => "r"

def ofFile? (name : String) : Option Lang :=
  match Path.extension? name with
  | some "py" => some py
  | some "r" | some "R" => some r
  | _ => none

end Lang

namespace Example

def langs (word : String) : Except RenderFault (List Lang) :=
  match Text.trim word with
  | "" | "both" => .ok [.py, .r]
  | "py" => .ok [.py]
  | "r" => .ok [.r]
  | "none" => .ok []
  | other => .error (.badArgument "pyrex" (.unknownVariant other))

inductive Format
  | plain
  | png
  | table
deriving DecidableEq, Repr

def Format.ofWord (word : String) : Except RenderFault Format :=
  match Text.trim word with
  | "" | "plain" => .ok .plain
  | "png" => .ok .png
  | "table" => .ok .table
  | other => .error (.badArgument "pyrex" (.unknownFormat other))

inductive Body
  /-- Lines of code; none where a line only fills up a column. -/
  | code (lines : List (Option String))
  | text (content : String)
  | image (image : ImageRef)
  /-- A fragment that is trusted as it stands. -/
  | html (content : String)
deriving DecidableEq, Repr

structure Cell where
  caption : Option String
  lang : Option Lang
  body : Body
deriving DecidableEq, Repr

def Cell.ofCode (caption : Option String) (lang : Option Lang) (lines : List String) : Cell :=
  ⟨caption, lang, .code (lines.map some)⟩

abbrev Block := List (List Cell)

/-- Lines filled up to a length. None is ever cut off. -/
def padTo (length : Nat) (lines : List (Option String)) : List (Option String) :=
  lines ++ List.replicate (length - lines.length) none

def level : List Cell → List Cell
  | [⟨leftCaption, leftLang, .code a⟩, ⟨rightCaption, rightLang, .code b⟩] =>
    let length := max a.length b.length
    [⟨leftCaption, leftLang, .code (padTo length a)⟩,
      ⟨rightCaption, rightLang, .code (padTo length b)⟩]
  | row => row

def addRow (block : Block) (row : List Cell) : Block :=
  if row.isEmpty then block else block ++ [level row]

end Example
end Quire
