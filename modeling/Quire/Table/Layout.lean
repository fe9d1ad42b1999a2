/-! Laying out a table row by row. Tables are HTML for every target. Cells open only when
something comes into them, rows are filled up to the declared columns, and the first rule ends
the head. Each operation answers what it writes. -/
namespace Quire.Table

structure Layout where
  columns : Nat
  inHead : Bool
  /-- How many columns the open row uses; none when no row is open. -/
  row : Option Nat
  cellOpen : Bool
  /-- How many rows are complete. -/
  rows : Nat
deriving DecidableEq, Repr

namespace Layout

def start (columns : Nat) : String × Layout :=
  ("<table class='table'>\n<thead>\n", ⟨columns, true, none, false, 0⟩)

def tag (t : Layout) : String := if t.inHead then "th" else "td"

def openTag (t : Layout) (span : Nat) : String :=
  if span > 1 then "    <" ++ t.tag ++ " colspan='" ++ toString span ++ "'>"
  else "    <" ++ t.tag ++ ">"

def closeTag (t : Layout) : String := "</" ++ t.tag ++ ">\n"

def closeCell (t : Layout) : String × Layout :=
  if t.cellOpen then (t.closeTag, { t with cellOpen := false }) else ("", t)

/-- Numbers of columns are machine words. A sum that does not fit loses its high part. -/
def wordSize : Nat := UInt64.size

/-- Opens a cell over `span` columns, in a new row if need be. An open cell ends before it. -/
def openCell (span : Nat) (t : Layout) : String × Layout :=
  let (closing, t) := t.closeCell
  let opening := if t.row.isNone then "  <tr>\n" else ""
  (closing ++ opening ++ t.openTag span,
    { t with cellOpen := true, row := some ((t.row.getD 0 + max span 1) % wordSize) })

def ensureCell (t : Layout) : String × Layout := if t.cellOpen then ("", t) else t.openCell 1

/-- A column separator ends a cell. Where none is open it stands for an empty one. -/
def nextCell (t : Layout) : String × Layout :=
  let (opening, t) := t.ensureCell
  let (closing, t) := t.closeCell
  (opening ++ closing, t)

/-- A row separator ends the row, after empty cells for the columns that are left. Where no row
is open it means nothing. -/
def endRow (t : Layout) : String × Layout :=
  match t.row with
  | none => ("", t)
  | some used =>
    let (closing, t) := t.closeCell
    let padding := String.join (List.replicate (t.columns - used) (t.openTag 1 ++ t.closeTag))
    (closing ++ padding ++ "  </tr>\n", { t with row := none, rows := t.rows + 1 })

/-- A rule ends the row, and the first rule ends the head. -/
def midrule (t : Layout) : String × Layout :=
  let (ending, t) := t.endRow
  if t.inHead then (ending ++ "</thead>\n<tbody>\n", { t with inHead := false }) else (ending, t)

def finish (t : Layout) : String :=
  let (ending, t) := t.endRow
  ending ++ (if t.inHead then "</thead>\n" else "</tbody>\n") ++ "</table>\n"

end Layout
end Quire.Table
