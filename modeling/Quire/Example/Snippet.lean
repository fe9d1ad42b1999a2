import Quire.Example

/-! Code snippets that were run beforehand. A snippet has a source for each language and an output
for each, saved as text, as a picture or as a table. -/
namespace Quire.Example

open Asset (Job)

namespace Snippet

def path (dir name : String) : String := Path.join dir name

def read (dir name : String) (disk : Disk) : Except RenderFault String :=
  match disk.readText (path dir name) with
  | .ok content => .ok content
  | .error _ => .error (.missingSnippet (path dir name))

def lines (dir name : String) (disk : Disk) : Except RenderFault (List String) :=
  (read dir name disk).map fun code => Text.splitOn '\n' ((Text.stripEnd? "\n" code).getD code)

def source (dir base : String) (lang : Lang) (disk : Disk) : Except RenderFault (List String) :=
  lines dir (base ++ "." ++ lang.extension) disk

def output (dir : String) (store : Asset.Store) (stem : String) (format : Format) : Job Body :=
  fun disk =>
    let reading (suffix : String) (body : String → Body) : Except Fault Body :=
      match read dir (stem ++ suffix) disk with
      | .ok content => .ok (body content)
      | .error e => .error (.render e)
    match format with
    | .plain => (reading ".out" .text, disk)
    | .table => (reading ".table.html" .html, disk)
    | .png =>
      let file := path dir (stem ++ ".png")
      if disk.contains file then
        let (image, disk) := Asset.publishFile store file disk
        (image.map .image, disk)
      else Asset.failed (.missingSnippet file) disk

def codeRow (dir base : String) (langs : List Lang) (disk : Disk) :
    Except RenderFault (List Cell) :=
  langs.mapM fun lang =>
    (source dir base lang disk).map fun code =>
      .ofCode (some (lang.title ++ " code")) (some lang) code

def outputs (dir : String) (store : Asset.Store) (base : String) (captioned : Bool)
    (format : Format) : List Lang → Job (List Cell)
  | [], disk => (.ok [], disk)
  | lang :: langs, disk =>
    match output dir store (base ++ "." ++ lang.extension) format disk with
    | (.error e, disk) => (.error e, disk)
    | (.ok body, disk) =>
      let caption := if captioned then some (lang.title ++ " output") else none
      let (cells, disk) := outputs dir store base captioned format langs disk
      (cells.map (⟨caption, none, body⟩ :: ·), disk)

def outputRow (dir : String) (store : Asset.Store) (base : String) (langs : List Lang)
    (format : Format) : Job (List Cell) :=
  outputs dir store base (langs.length > 1) format langs

structure Request where
  base : String
  input : List Lang
  output : List Lang
  format : Format
deriving Repr

def compose (dir : String) (store : Asset.Store) (request : Request) : Job Block := fun disk =>
  match codeRow dir request.base request.input disk with
  | .error e => Asset.failed e disk
  | .ok code =>
    let (row, disk) := outputRow dir store request.base request.output request.format disk
    (row.map fun cells => addRow (addRow [] code) cells, disk)

end Snippet
end Quire.Example
