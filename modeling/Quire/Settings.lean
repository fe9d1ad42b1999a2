import Quire.Disk
import Quire.Fault
import Quire.Target
import Quire.Toml

/-! The settings of a book, from a TOML text. A key that no setting has, a value of another type
and a number out of range make the whole text invalid. Relative paths start from the folder of the
text. -/
namespace Quire

structure Settings where
  title : String
  /-- The folder of the sources. -/
  base : String
  /-- The root file of records, as seen from the sources. -/
  aux : String
  bibliography : Option String
  snippets : String
  outDir : String
  target : Target
  /-- Images wider or higher than this get a thumbnail. -/
  thumbnailSize : Nat
  /-- Chapters are rendered at the same time. -/
  parallel : Bool
  /-- Captions of chapters and what the contents show for them. -/
  renames : List (String × String)
  /-- How many seconds an external program may take. -/
  timeout : Nat
deriving Repr

namespace Settings

def auxPath (settings : Settings) : String := Path.join settings.base settings.aux

def bibliographyPath (settings : Settings) : Option String :=
  settings.bibliography.map (Path.join settings.base)

def snippetDir (settings : Settings) : String := Path.join settings.base settings.snippets

def imageDir (settings : Settings) : String := Path.join settings.outDir "img"

open Toml (Value Entries)

/-- The values of named fields. A table has them by their names and none besides; an array has them
in their order, at least the first `least` of them. -/
def fields (names : List String) (least : Nat) : Value → Option (List (Option Value))
  | .table _ entries => ofEntries entries
  | .array items => ofItems items
  | .tables newest earlier => ofItems ((newest :: earlier).reverse.map (.table .header))
  | _ => none
where
  ofEntries (entries : Entries) : Option (List (Option Value)) :=
    if entries.all fun (key, _) => names.contains key then some (names.map (List.lookup · entries))
    else none
  ofItems (items : List Value) : Option (List (Option Value)) :=
    if least ≤ items.length then some (names.mapIdx fun i _ => items[i]?) else none

def sectionFields (names : List String) (least : Nat) : Option Value → Option (List (Option Value))
  | none => some (names.map fun _ => none)
  | some value => fields names least value

def getD (read : Value → Option α) (default_ : α) : Option Value → Option α
  | none => some default_
  | some value => read value

def text : Value → Option String
  | .text t => some t
  | _ => none

def boolean : Value → Option Bool
  | .boolean b => some b
  | _ => none

def natural (bound : Nat) : Value → Option Nat
  | .integer n => if 0 ≤ n && n < bound then some n.toNat else none
  | _ => none

def targetNamed : String → Option Target
  | "html" => some .html
  | "quarto" => some .quarto
  | _ => none

/-- A target by its name alone, or by its name with nothing under it. -/
def targetOf : Value → Option Target
  | .text t => targetNamed t
  | .table _ [(name, .table _ [])] => targetNamed name
  | .table _ [(name, .array [])] => targetNamed name
  | _ => none

/-- Texts by their keys. A moment counts as a table with a key of its own. -/
def texts : Value → Option (List (String × String))
  | .table _ entries => entries.mapM fun (key, value) => (text value).map (key, ·)
  | .moment text => some [("$__toml_private_datetime", text)]
  | _ => none

def ofEntries (root : String) (entries : Entries) : Option Settings := do
  let [book, output, toc, process] ← fields.ofEntries ["book", "output", "toc", "process"] entries
    | none
  let [title, base, aux, bibliography, snippets] ←
      sectionFields ["title", "base", "aux", "bibliography", "snippets"] 5 book
    | none
  let [dir, target, thumbnailSize, parallel] ←
      sectionFields ["dir", "target", "thumbnail_size", "parallel"] 4 output
    | none
  let [renames] ← sectionFields ["renames"] 0 toc | none
  let [timeout] ← sectionFields ["timeout_secs"] 1 process | none
  return {
    title := ← getD text "Book" title
    base := Path.join root (← getD text "." base)
    aux := ← getD text "main.aux" aux
    bibliography := ← getD (fun v => (text v).map some) none bibliography
    snippets := ← getD text "snippets" snippets
    outDir := Path.join root (← getD text "docs" dir)
    target := ← getD targetOf .html target
    thumbnailSize := ← getD (natural UInt32.size) 640 thumbnailSize
    parallel := ← getD boolean false parallel
    renames := ← getD texts [] renames
    timeout := ← getD (natural UInt64.size) 120 timeout }

def parse (source root : String) : Except Fault Settings :=
  match Toml.parse source >>= ofEntries root with
  | some settings => .ok settings
  | none => .error (.settings .invalidToml)

def load (disk : Disk) (path : String) : Except Fault Settings :=
  match disk.readText path with
  | .error problem => .error (.unreadable path problem)
  | .ok source => parse source ((Path.parent? path).getD ".")

end Settings
end Quire
