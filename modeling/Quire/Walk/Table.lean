import Quire.Table.Columns
import Quire.Walk.State

/-! Tables of a chapter. A table has a layout of its own, and the layout of a table around it is
put aside until it ends. -/
namespace Quire.Walk

open Node (shrinks_children)

variable {node : Node} {rest : List Node}

/-- The columns that a table declares. One of a set width declares them behind the width. -/
def columnSpec (node : Node) : Except RenderFault String :=
  if node.name = "tabularx" then
    (node.exactArgs 2).map fun args => (args[1]?.map Arg.raw).getD ""
  else node.onlyArg.map Arg.raw

def State.startTable (columns : Nat) (s : State) : State :=
  let begun := s.write (Table.Layout.start columns).1
  { begun with table := some (Table.Layout.start columns).2, strays := "" :: begun.strays }

def State.finishTable (outer : Option Table.Layout) (s : State) : State :=
  match s.table with
  | some layout =>
    { s with out := s.out ++ layout.finish, table := outer, strays := s.strays.tail }
  | none => { s with table := outer, strays := s.strays.tail }

def table (ctx : Context) (inside : Inside node rest) : Walk Unit := do
  let spec ← rendering (columnSpec node)
  closeParagraph ctx
  within (·.startTable (Table.countColumns spec)) (fun s t => t.finishTable s.table)
    (inside node.children (shrinks_children node rest))

def cellSpan (node : Node) : Except RenderFault Nat := do
  let args ← node.exactArgs 3
  let text := (args.head?.map Arg.text).getD ""
  match Text.count? text with
  | some span => return span
  | none => throw (.badArgument "multicolumn" (.columnCount text))

def wideCell (inside : Inside node rest) : Walk Unit := do
  let span ← rendering (cellSpan node)
  modify (·.layTable (·.openCell span))
  inlined (argument inside 2)

def rule : Walk Unit := modify (·.layTable (·.midrule))

end Quire.Walk
