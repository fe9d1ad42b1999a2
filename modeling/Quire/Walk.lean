import Quire.Walk.Inline
import Quire.Walk.Listing
import Quire.Walk.Rest
import Quire.Walk.Table
import Quire.Walk.Text

/-! Walking the nodes of a chapter, which writes its body for a target. A node is done with what is
inside it and what follows it in view; the walk then goes on with what the node leaves over. -/
namespace Quire.Walk

def perform (ctx : Context) (node : Node) (rest : List Node) (inside : Inside node rest) :
    Role → Walk Unit
  | .ignored | .partialRule | .transparent => return
  | .markup m => markup ctx inside m
  | .fixed html quarto => fixed ctx html quarto
  | .heading level => heading ctx inside level (Role.isStarred node.name)
  | .citation style => citation ctx node style
  | .reference => reference ctx node
  | .footnote => footnote ctx inside
  | .float class_ => float ctx inside class_
  | .caption => caption ctx inside
  | .graphics => graphics ctx node
  | .drawing => drawing ctx node
  | .table => table ctx inside
  | .wideCell => wideCell inside
  | .rule => rule
  | .list => list ctx inside
  | .item => item ctx inside
  | .objectives => objectives ctx inside
  | .abstract_ => abstractBlock ctx inside
  | .keywords => keywordBlock ctx inside
  | .feature => feature ctx inside
  | .equation name => equation ctx node name
  | .verbatim => verbatim ctx node
  | .verb => verb ctx node
  | .dirtree => dirtree ctx node
  | .url => url ctx node
  | .href => href ctx inside
  | .color => color ctx inside
  | .coloredText => coloredText ctx inside
  | .example_ => example_ ctx inside
  | .codeColumns => codeColumns ctx node
  | .code => code ctx inside
  | .output format => output ctx node format
  | .outputColumns => outputColumns ctx node
  | .raster => raster ctx inside
  | .outputBox => outputBox ctx inside
  | .unknown => record (.unknownNode node.name)

def group (ctx : Context) (node : Node) (rest : List Node) (inside : Inside node rest) :
    Walk Unit := do
  if !node.children.all (·.isBlank) then openParagraph ctx
  inlined (inside node.children (Node.shrinks_children node rest))

def textAhead (rest : List Node) : String := Node.sourceOf (rest.takeWhile (·.isText))

def visit (ctx : Context) (node : Node) (rest : List Node) (inside : Inside node rest) :
    Walk Unit :=
  match node with
  | .text content => text ctx (content ++ textAhead rest)
  | .math display content => math ctx display content
  | .group children => group ctx (.group children) rest inside
  | .command name args => perform ctx (.command name args) rest inside (.ofName name)
  | .environment name args children =>
    perform ctx (.environment name args children) rest inside (.ofName name)

/-- Walks neighbours. What is inside a node is walked one level deeper, and then what it leaves. -/
@[irreducible] def neighbours (ctx : Context) : List Node → Walk Unit :=
  WellFounded.fix ⟨Node.accessible_within (2 ^ 32)⟩ fun nodes walk =>
    match nodes, walk with
    | [], _ => pure_ ()
    | node :: rest, walk =>
      bind_ (visit ctx node rest fun nodes smaller => deeper (walk nodes smaller))
        fun _ => walk (remaining node rest) (shrinks_remaining node rest)

theorem neighbours_nil (ctx : Context) : neighbours ctx [] = pure_ () := by
  rw [neighbours, WellFounded.fix_eq]

theorem neighbours_cons (ctx : Context) (node : Node) (rest : List Node) :
    neighbours ctx (node :: rest) =
      bind_ (visit ctx node rest fun nodes _ => deeper (neighbours ctx nodes))
        fun _ => neighbours ctx (remaining node rest) := by
  rw [neighbours, WellFounded.fix_eq]

/-- Walks nodes one level below the place of the walk. -/
def nodes (ctx : Context) (nodes : List Node) : Walk Unit := deeper (neighbours ctx nodes)

end Walk

structure Rendered where
  body : String
  diagnostics : Diagnostics
deriving DecidableEq, Repr

namespace Walk

/-- The body after a walk: the open paragraph and table end, and the notes follow. -/
def State.finish (ctx : Context) (s : State) : Rendered :=
  let s := s.closeParagraph ctx.flavor
  let s := s.finishTable none
  let notes := if s.footnotes.isEmpty then "" else ctx.flavor.footnotes s.footnotes
  ⟨s.out ++ notes, s.diagnostics⟩

def renderOn (ctx : Context) (desk : Desk) (chapter : List Node) : Except Fault Rendered × Desk :=
  match nodes ctx chapter { State.start ctx desk.disk with desk } with
  | (.ok (), s) => (.ok (s.finish ctx), s.desk)
  | (.error e, s) => (.error e, s.desk)

def render (ctx : Context) (disk : Disk) (chapter : List Node) : Except Fault Rendered × Disk :=
  let (result, desk) := renderOn ctx (.alone disk) chapter
  (result, desk.disk)

theorem render_eq (ctx : Context) (disk : Disk) (chapter : List Node) :
    render ctx disk chapter =
      match nodes ctx chapter (.start ctx disk) with
      | (.ok (), s) => (.ok (s.finish ctx), s.disk)
      | (.error e, s) => (.error e, s.disk) := by
  have start : { State.start ctx (Desk.alone disk).disk with desk := .alone disk } =
      State.start ctx disk := rfl
  simp only [render, renderOn, start]
  generalize nodes ctx chapter (.start ctx disk) = result
  obtain ⟨_ | _, s⟩ := result <;> rfl

end Walk
end Quire
