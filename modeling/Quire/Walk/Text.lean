import Quire.Prose
import Quire.Table.Cells
import Quire.Walk.State

/-! Running text of a chapter. Blank lines part paragraphs, and inside a table the separators part
cells and rows. -/
namespace Quire.Walk

/-- The number of characters of a paragraph break after its first line feed: blanks, a line feed,
and all white space behind it. -/
def breakLength? (cs : List Char) : Option Nat :=
  let blanks := (cs.takeWhile fun c => c == ' ' || c == '\t').length
  match cs.drop blanks with
  | '\n' :: rest => some (blanks + 1 + (rest.takeWhile Text.isBlank).length)
  | _ => none

def paragraphs : List Char → List Char × List (List Char)
  | [] => ([], [])
  | c :: cs =>
    match if c = '\n' then breakLength? cs else none with
    | some used =>
      let (first, more) := paragraphs (cs.drop used)
      ([], first :: more)
    | none =>
      let (first, more) := paragraphs cs
      (c :: first, more)
termination_by cs => cs.length
decreasing_by all_goals simp only [List.length_drop, List.length_cons]; omega

def writePiece (flavor : Flavor) (text : String) (s : State) : State :=
  if Text.allBlank text then (if s.inParagraph then s.write text else s)
  else if s.inParagraph then s.write text
  else (s.openParagraph flavor).write (Text.trimStart text)

def piece (ctx : Context) (raw : List Char) : Walk Unit := do
  let text ← rendering (Prose.normalize ctx.target (.ofList raw))
  modify (writePiece ctx.flavor text)

def paragraphText (ctx : Context) (raw : String) : Walk Unit := do
  let (first, more) := paragraphs raw.toList
  piece ctx first
  more.forM fun next => do
    modify (·.closeParagraph ctx.flavor)
    piece ctx next

/-- Running text where no paragraph starts. White space alone counts only inside other text. -/
def plainText (ctx : Context) (raw : String) : Walk Unit := do
  let text ← rendering (Prose.normalize ctx.target raw)
  modify fun s =>
    if s.inParagraph || s.inline || !Text.allBlank text then s.write text else s

/-- Writes text into the open cell, or into a new one unless it is blank. -/
def writeCell (text : String) (s : State) : State :=
  if Text.allBlank text && !(s.table.map (·.cellOpen)).getD false then s
  else (s.layTable (·.ensureCell)).write text

def cellToken : Table.CellToken → Walk Unit
  | .text raw => do
    let text ← rendering (Prose.normalize .html raw)
    modify (writeCell text)
  | .column => modify (·.layTable (·.nextCell))
  | .row => modify (·.layTable (·.endRow))

/-- Text inside a table. Cells get HTML for every target. -/
def tableText (raw : String) : Walk Unit := (Table.splitCells raw).forM cellToken

def text (ctx : Context) (raw : String) : Walk Unit := do
  let s ← get
  if s.table.isSome then tableText raw
  else if s.inline || s.depth != s.blockDepth then plainText ctx raw
  else paragraphText ctx raw

end Quire.Walk
