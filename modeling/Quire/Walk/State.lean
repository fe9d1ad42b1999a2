import Quire.Bibliography
import Quire.Diagnostics
import Quire.Disk.Desk
import Quire.Flavor.Quarto
import Quire.Node.Measure
import Quire.Table.Layout

/-! The state of a walk over a chapter, and the steps that a walk is made of. A step answers a
state even when it fails, so that what was swapped for its duration can be put back. -/
namespace Quire.Walk

structure Context where
  labels : LabelIndex
  bibliography : Bibliography
  /-- The bodies of inline verbatim text, by their number. -/
  verbs : List String
  snippetDir : String
  assets : Asset.Store
  target : Target
  /-- The ordinal of the chapter. -/
  chapter : Nat

def Context.flavor (ctx : Context) : Flavor := ctx.target.flavor

/-- A note that has its marker: the number shown there, and the text of its body. -/
structure Mark where
  number : Nat
  body : String
deriving DecidableEq, Repr

/-- A tag of a paragraph, as far as it matters which of the two it is. -/
inductive ParagraphTag
  | opening
  | closing
deriving DecidableEq, Repr

structure State where
  out : String
  /-- How many lists of siblings enclose the place of the walk. -/
  depth : Nat
  /-- The depth at which text forms paragraphs. -/
  blockDepth : Nat
  inParagraph : Bool
  /-- Inside running text, where no paragraph starts. -/
  inline : Bool
  table : Option Table.Layout
  /-- The kinds of the open lists, the innermost first. -/
  lists : List ListKind
  footnotes : List String
  /-- The history of the markers, which inner walks go on with. No step looks at it. -/
  marks : List Mark
  /-- How many notes enclosing walks numbered before this one. -/
  footnoteBase : Nat
  counters : Counters
  diagnostics : Diagnostics
  /-- The label of the float that is walked. -/
  floatLabel : Option String
  /-- How many drawings were met. -/
  drawings : Nat
  desk : Desk
  /-- The history of the paragraph tags that this walk wrote. No step looks at it. -/
  paragraphTags : List ParagraphTag
  /-- The text that was written between the cells of each open table, the innermost first. The tags of
  the table are no part of it. No step looks at it. -/
  strays : List String

/-- The number of a chapter, or its ordinal where the index knows no number. -/
def Context.chapterNumber (ctx : Context) : Nat :=
  ((ctx.labels.chapter? ctx.chapter >>= fun c => Text.numeral? UInt32.size c.number)).getD
    (ctx.chapter % UInt32.size)

def State.start (ctx : Context) (disk : Disk) : State where
  out := ""
  depth := 0
  blockDepth := 1
  inParagraph := false
  inline := false
  table := none
  lists := []
  footnotes := []
  marks := []
  footnoteBase := 0
  counters := .forChapter ctx.chapterNumber
  diagnostics := .empty
  floatLabel := none
  drawings := 0
  desk := .alone disk
  paragraphTags := []
  strays := []

namespace State

def disk (s : State) : Disk := s.desk.disk

def betweenCells (s : State) : Bool := s.table.any (!·.cellOpen)

def write (text : String) (s : State) : State :=
  { s with
    out := s.out ++ text
    strays := if s.betweenCells then s.strays.modifyHead (· ++ text) else s.strays }

def layTable (act : Table.Layout → String × Table.Layout) (s : State) : State :=
  match s.table with
  | none => s
  | some layout => { s with out := s.out ++ (act layout).1, table := some (act layout).2 }

/-- Makes room for content: a cell in a table, elsewhere a paragraph where text forms any. -/
def openParagraph (flavor : Flavor) (s : State) : State :=
  if s.table.isSome then s.layTable (·.ensureCell)
  else if !s.inParagraph && !s.inline && s.depth == s.blockDepth then
    { s.write flavor.paragraphOpen with
      inParagraph := true, paragraphTags := s.paragraphTags ++ [.opening] }
  else s

/-- Ends the open paragraph, without the white space at its end. -/
def closeParagraph (flavor : Flavor) (s : State) : State :=
  if s.inParagraph then
    { ({ s with out := Text.trimEnd s.out }).write flavor.paragraphClose with
      inParagraph := false
      paragraphTags := s.paragraphTags ++ [.closing] }
  else s

def mark (flavor : Flavor) (body : String) (s : State) : State :=
  let number := s.footnoteBase + s.footnotes.length
  { s.write (flavor.footnoteMarker number) with marks := s.marks ++ [⟨number, body⟩] }

def record (diagnostic : Diagnostic) (s : State) : State :=
  { s with diagnostics := s.diagnostics.record diagnostic }

/-- The state of a walk inside this one whose text is wanted. Its notes go on with the numbers. -/
def child (ctx : Context) (s : State) : State :=
  { State.start ctx s.disk with
    inline := true
    desk := s.desk
    counters := s.counters
    footnoteBase := s.footnoteBase + s.footnotes.length
    marks := s.marks
    lists := s.lists }

def merge (s inner : State) : State :=
  { s with
    footnotes := s.footnotes ++ inner.footnotes
    marks := inner.marks
    diagnostics := s.diagnostics.merge inner.diagnostics
    desk := inner.desk }

end State
end Walk

/-- A step of a walk: its result or its fault, and the state after it. -/
def Walk (α : Type) := Walk.State → Except Fault α × Walk.State

namespace Walk

def pure_ (a : α) : Walk α := fun s => (.ok a, s)

def bind_ (step : Walk α) (next : α → Walk β) : Walk β := fun s =>
  match step s with
  | (.ok a, s) => next a s
  | (.error e, s) => (.error e, s)

instance : Monad Walk where
  pure := pure_
  bind := bind_

def get : Walk State := fun s => (.ok s, s)

def modify (f : State → State) : Walk Unit := fun s => (.ok (), f s)

def fail (fault : Fault) : Walk α := fun s => (.error fault, s)

def ofExcept : Except Fault α → Walk α
  | .ok a => pure_ a
  | .error e => fail e

def rendering : Except RenderFault α → Walk α
  | .ok a => pure_ a
  | .error e => fail (.render e)

def onDisk (job : Asset.Job α) : Walk α := fun s =>
  let (result, desk) := s.desk.visit job
  (result, { s with desk })

def write (text : String) : Walk Unit := modify (·.write text)

def openParagraph (ctx : Context) : Walk Unit := modify (·.openParagraph ctx.flavor)

def closeParagraph (ctx : Context) : Walk Unit := modify (·.closeParagraph ctx.flavor)

def record (diagnostic : Diagnostic) : Walk Unit := modify (·.record diagnostic)

/-- Runs a step in a state made by `enter`. Whether it fails or not, `leave` makes the state after
it from the states before and after. -/
def within (enter : State → State) (leave : State → State → State) (step : Walk α) : Walk α :=
  fun s =>
    match step (enter s) with
    | (result, t) => (result, leave s t)

def deeper (step : Walk α) : Walk α :=
  within (fun s => { s with depth := s.depth + 1 }) (fun _ t => { t with depth := t.depth - 1 }) step

def inlined (step : Walk α) : Walk α :=
  within (fun s => { s with inline := true }) (fun s t => { t with inline := s.inline }) step

/-- Runs a step on the inside of a block, where text forms paragraphs of its own. -/
def blocked (flavor : Flavor) (step : Walk α) : Walk α :=
  within
    (fun s => { s.closeParagraph flavor with blockDepth := s.depth + 1 })
    (fun s t => { t.closeParagraph flavor with blockDepth := s.blockDepth })
    step

/-- The text that a step writes, on its own. When the step fails nothing of it is left but what it
did to files. -/
def asText (ctx : Context) (step : Walk Unit) : Walk String := fun s =>
  match step (s.child ctx) with
  | (.ok (), inner) => (.ok inner.out, s.merge inner)
  | (.error e, inner) => (.error e, { s with desk := inner.desk })

/-- How the nodes inside of a node are walked. It is asked only about lists that are smaller than
the node with its neighbours. -/
abbrev Inside (node : Node) (rest : List Node) :=
  (nodes : List Node) → Node.Shrinks nodes (node :: rest) → Walk Unit

def argument {node : Node} {rest : List Node} (inside : Inside node rest) (n : Nat) : Walk Unit :=
  inside (node.requiredNodes n) (Node.shrinks_required node rest n)

end Walk
end Quire
