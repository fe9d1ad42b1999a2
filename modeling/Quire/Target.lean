/-! The two kinds of pages that a book can be rendered to. -/
namespace Quire

inductive Target
  | html
  | quarto
deriving DecidableEq, Repr, Inhabited

namespace Target

def name : Target → String
  | html => "html"
  | quarto => "quarto"

def extension : Target → String
  | html => "html"
  | quarto => "qmd"

def ofWord? (word : String) : Option Target :=
  match word.map Char.toLower with
  | "html" => some html
  | "quarto" | "qmd" => some quarto
  | _ => none

def unknownMessage (word : String) : String :=
  .join ["unknown target '", word.map Char.toLower, "' (expected html or quarto)"]

end Target
end Quire
