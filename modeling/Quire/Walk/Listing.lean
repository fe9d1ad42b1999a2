import Quire.Example.Snippet
import Quire.Walk.Float

/-! Code examples: commands that show saved snippets and their output. -/
namespace Quire.Walk

open Example
open Node (listLongest longest_le_self shrinks_children shrinks_option)

variable {node : Node} {rest : List Node}

def optionText? (ctx : Context) (inside : Inside node rest) (owner : Node) (key : String)
    (small : owner.longest ≤ listLongest (node :: rest)) : Walk (Option String) :=
  match h : owner.optionNodes? key with
  | .error e => fail e
  | .ok none => return none
  | .ok (some nodes) => do
    let text ← asText ctx (inside nodes (shrinks_option small h))
    return some (Text.trim text)

def listing (ctx : Context) (class_ : Option String) (block : Block) : Walk Unit := do
  closeParagraph ctx
  match class_ with
  | none => write (ctx.flavor.example_ block)
  | some class_ =>
    write (ctx.flavor.blockOpen class_)
    write (ctx.flavor.example_ block)
    write ctx.flavor.blockClose

def requestOf (base : String) (options : Options) : Except RenderFault Snippet.Request := do
  return {
    base
    input := ← Example.langs (options.getD "input" "both")
    output := ← Example.langs (options.getD "output" "both")
    format := ← Example.Format.ofWord (options.getD "format" "plain") }

def exampleLabel (base : String) : String := "ex:" ++ (Path.fileName? base).getD base

def captionedExample (ctx : Context) (base : String) (request : Snippet.Request)
    (caption : Walk Unit) : Walk Unit := do
  let block ← onDisk (Snippet.compose ctx.snippetDir ctx.assets request)
  closeParagraph ctx
  write (ctx.flavor.blockOpen "code-example")
  writeCaption ctx (some (exampleLabel base)) caption
  write (ctx.flavor.example_ block)
  write ctx.flavor.blockClose

def example_ (ctx : Context) (inside : Inside node rest) : Walk Unit := do
  let arg ← rendering node.onlyArg
  let options ← ofExcept node.options
  let request ← rendering (requestOf arg.text options)
  match h : node.optionNodes? "caption" with
  | .error e => fail e
  | .ok none => captionedExample ctx arg.text request (return ())
  | .ok (some nodes) =>
    captionedExample ctx arg.text request
      (inside nodes (shrinks_option (longest_le_self node rest) h))

def codeColumns (ctx : Context) (node : Node) : Walk Unit := do
  let arg ← rendering node.onlyArg
  let row ← onDisk (Asset.looking (Snippet.codeRow ctx.snippetDir arg.text [.py, .r]))
  listing ctx none (Example.addRow [] row)

/-- A cell for a file: output when its name says so, otherwise source. -/
def fileCell (ctx : Context) (file : String) (caption : Option String) : Walk Cell := do
  match Text.stripEnd? ".out" file with
  | some stem =>
    let body ← onDisk (Snippet.output ctx.snippetDir ctx.assets stem .plain)
    return ⟨caption, none, body⟩
  | none =>
    let lines ← onDisk (Asset.looking (Snippet.lines ctx.snippetDir file))
    return .ofCode caption (Lang.ofFile? file) lines

def codeCell (ctx : Context) (inside : Inside node rest) (box : Node)
    (small : box.longest ≤ listLongest (node :: rest)) : Walk Cell := do
  let arg ← rendering box.onlyArg
  let caption ← optionText? ctx inside box "caption" small
  fileCell ctx arg.text caption

def code (ctx : Context) (inside : Inside node rest) : Walk Unit := do
  let cell ← codeCell ctx inside node (longest_le_self node rest)
  listing ctx none (Example.addRow [] [cell])

def output (ctx : Context) (node : Node) (format : Example.Format) : Walk Unit := do
  let arg ← rendering node.onlyArg
  let body ← onDisk (Snippet.output ctx.snippetDir ctx.assets arg.text format)
  listing ctx none (Example.addRow [] [⟨none, none, body⟩])

def outputColumns (ctx : Context) (node : Node) : Walk Unit := do
  let arg ← rendering node.onlyArg
  let row ← onDisk (Snippet.outputRow ctx.snippetDir ctx.assets arg.text [.py, .r] .plain)
  listing ctx none (Example.addRow [] row)

def boxes (node : Node) : List Node := node.children.filter (·.name == "codex")

theorem longest_box_le {box : Node} (rest : List Node) (member : box ∈ boxes node) :
    box.longest ≤ listLongest (node :: rest) :=
  Node.child_longest_le rest (List.mem_filter.mp member).1

def raster (ctx : Context) (inside : Inside node rest) : Walk Unit :=
  match h : boxes node with
  | [left, right] => do
    let a ← codeCell ctx inside left (longest_box_le rest (by simp [h]))
    let b ← codeCell ctx inside right (longest_box_le rest (by simp [h]))
    listing ctx (some "code-raster") (Example.addRow [] [a, b])
  | all => fail (.render (node.argumentCount 2 all.length))

def outputBox (ctx : Context) (inside : Inside node rest) : Walk Unit := do
  let title ← optionText? ctx inside node "title" (longest_le_self node rest)
  closeParagraph ctx
  write (ctx.flavor.blockOpen "code-output")
  match title with
  | some title =>
    write (ctx.flavor.captionOpen "" title)
    write ctx.flavor.captionClose
  | none => pure ()
  inside node.children (shrinks_children node rest)
  write ctx.flavor.blockClose

end Quire.Walk
