import Mathlib.Algebra.Ring.Nat
import Quire.Table.Layout

/-! What a run of layout operations writes. A sheet holds the rows and cells that a run makes,
without tags and without the cells that only fill a row up. Main statement: a run writes its sheet,
whatever the order of its operations. -/
namespace Quire.Table

inductive Operation
  | openCell (span : Nat)
  | ensureCell
  | closeCell
  | nextCell
  | endRow
  | midrule
  | text (content : String)
deriving DecidableEq

def TagFree (content : String) : Prop := ∀ c ∈ content.toList, c ≠ '<' ∧ c ≠ '>'

instance (content : String) : Decidable (TagFree content) :=
  List.decidableBAll _ content.toList

namespace Layout

def perform (t : Layout) : Operation → String × Layout
  | .openCell span => t.openCell span
  | .ensureCell => t.ensureCell
  | .closeCell => t.closeCell
  | .nextCell => t.nextCell
  | .endRow => t.endRow
  | .midrule => t.midrule
  | .text content => (content, t)

def run (t : Layout) : List Operation → String × Layout
  | [] => ("", t)
  | op :: ops =>
    let (first, t) := t.perform op
    let (rest, t) := t.run ops
    (first ++ rest, t)

/-- All that is written from the start of a table to its end. -/
def written (columns : Nat) (ops : List Operation) : String :=
  (start columns).1 ++ ((start columns).2.run ops).1 ++ ((start columns).2.run ops).2.finish

/-- Text goes into an open cell and has no tags; all else is allowed at any time. -/
def Allows (t : Layout) : Operation → Prop
  | .text content => t.cellOpen = true ∧ TagFree content
  | _ => True

def AllowsAll (t : Layout) : List Operation → Prop
  | [] => True
  | op :: ops => t.Allows op ∧ (t.perform op).2.AllowsAll ops

instance (t : Layout) : (op : Operation) → Decidable (t.Allows op)
  | .text content => inferInstanceAs (Decidable (t.cellOpen = true ∧ TagFree content))
  | .openCell _ | .ensureCell | .closeCell | .nextCell | .endRow | .midrule => .isTrue trivial

instance decidableAllowsAll : (t : Layout) → (ops : List Operation) → Decidable (t.AllowsAll ops)
  | _, [] => .isTrue trivial
  | t, op :: ops =>
    have := decidableAllowsAll (t.perform op).2 ops
    inferInstanceAs (Decidable (t.Allows op ∧ (t.perform op).2.AllowsAll ops))

end Layout

structure Cell where
  span : Nat
  content : String

def Cell.columns (c : Cell) : Nat := max c.span 1

def cellStart (tag : String) (span : Nat) : String :=
  if span > 1 then .join ["    <", tag, " colspan='", toString span, "'>"]
  else .join ["    <", tag, ">"]

def cellEnd (tag : String) : String := .join ["</", tag, ">\n"]

def Cell.printOpen (tag : String) (c : Cell) : String := cellStart tag c.span ++ c.content

def Cell.print (tag : String) (c : Cell) : String := c.printOpen tag ++ cellEnd tag

def width (row : List Cell) : Nat := (row.map Cell.columns).sum

/-- The columns that the cells of a row take, as a layout counts them. -/
def counted (row : List Cell) : Nat := width row % Layout.wordSize

def filled (columns : Nat) (row : List Cell) : List Cell :=
  row ++ List.replicate (columns - counted row) ⟨1, ""⟩

def printCells (tag : String) (cells : List Cell) : String := .join (cells.map (Cell.print tag))

def printRow (columns : Nat) (tag : String) (row : List Cell) : String :=
  .join ["  <tr>\n", printCells tag (filled columns row), "  </tr>\n"]

def printRows (columns : Nat) (tag : String) (rows : List (List Cell)) : String :=
  .join (rows.map (printRow columns tag))

/-- The rows that a run has completed, and the row that it is at. -/
structure Sheet where
  head : List (List Cell)
  /-- The rows below the first rule; none before there is one. -/
  body : Option (List (List Cell))
  /-- The closed cells of the row at hand. -/
  row : List Cell
  cell : Option Cell

namespace Sheet

def empty : Sheet := ⟨[], none, [], none⟩

def closeCell (s : Sheet) : Sheet := { s with row := s.row ++ s.cell.toList, cell := none }

def openCell (span : Nat) (s : Sheet) : Sheet := { s.closeCell with cell := some ⟨span, ""⟩ }

def ensureCell (s : Sheet) : Sheet := if s.cell.isSome then s else s.openCell 1

def completeRow (s : Sheet) : Sheet :=
  match s.body with
  | none => { s with head := s.head ++ [s.row], row := [] }
  | some rows => { s with body := some (rows ++ [s.row]), row := [] }

/-- A row without cells is none. -/
def endRow (s : Sheet) : Sheet :=
  if s.closeCell.row.isEmpty then s.closeCell else s.closeCell.completeRow

def midrule (s : Sheet) : Sheet := { s.endRow with body := some (s.endRow.body.getD []) }

def step (s : Sheet) : Operation → Sheet
  | .openCell span => s.openCell span
  | .ensureCell => s.ensureCell
  | .closeCell => s.closeCell
  | .nextCell => s.ensureCell.closeCell
  | .endRow => s.endRow
  | .midrule => s.midrule
  | .text content => { s with cell := s.cell.map fun c => { c with content := c.content ++ content } }

def ofRun (ops : List Operation) : Sheet := (ops.foldl step empty).endRow

def rows (s : Sheet) : List (List Cell) := s.head ++ s.body.getD []

def print (columns : Nat) (s : Sheet) : String :=
  .join ["<table class='table'>\n<thead>\n", printRows columns "th" s.head,
    match s.body with
      | none => "</thead>\n"
      | some rows => .join ["</thead>\n<tbody>\n", printRows columns "td" rows, "</tbody>\n"],
    "</table>\n"]

def tag (s : Sheet) : String := if s.body.isNone then "th" else "td"

def cells (s : Sheet) : List Cell := s.row ++ s.cell.toList

def printRowsSoFar (columns : Nat) (s : Sheet) : String :=
  .join ["<table class='table'>\n<thead>\n", printRows columns "th" s.head,
    match s.body with
      | none => ""
      | some rows => .join ["</thead>\n<tbody>\n", printRows columns "td" rows]]

def printRowSoFar (s : Sheet) : String :=
  if s.cells.isEmpty then ""
  else .join ["  <tr>\n", printCells s.tag s.row, .join (s.cell.toList.map (Cell.printOpen s.tag))]

/-- The layout and the text of a run that has made a sheet so far. An open cell always stands in an
open row, and the tag of a cell can not change while it is open. -/
structure Describes (columns : Nat) (s : Sheet) (out : String) (t : Layout) : Prop where
  columns_eq : t.columns = columns
  inHead_eq : t.inHead = s.body.isNone
  row_eq : t.row = if s.cells.isEmpty then none else some (counted s.cells)
  cellOpen_eq : t.cellOpen = s.cell.isSome
  out_eq : out = s.printRowsSoFar columns ++ s.printRowSoFar

theorem describes_start (columns : Nat) :
    Describes columns empty (Layout.start columns).1 (Layout.start columns).2 := by
  refine ⟨rfl, rfl, rfl, rfl, ?_⟩
  simp [Layout.start, printRowsSoFar, printRowSoFar, empty, cells, printRows]

variable {columns : Nat} {s : Sheet} {out : String} {t : Layout}

theorem Describes.tag_eq (d : Describes columns s out t) : t.tag = s.tag := by
  simp only [Layout.tag, Sheet.tag, d.inHead_eq]

theorem closeTag_eq (t : Layout) : t.closeTag = cellEnd t.tag := by
  unfold Layout.closeTag
  simp [cellEnd, String.append_assoc]

theorem openTag_eq (t : Layout) (span : Nat) : t.openTag span = cellStart t.tag span := by
  unfold Layout.openTag
  simp [cellStart, String.append_assoc]

theorem Describes.closeCell (d : Describes columns s out t) :
    Describes columns s.closeCell (out ++ t.closeCell.1) t.closeCell.2 := by
  obtain ⟨head, body, row, cell⟩ := s
  have tag := d.tag_eq
  obtain ⟨columns_eq, inHead_eq, row_eq, cellOpen_eq, rfl⟩ := d
  cases cell with
  | none =>
    have closed : t.cellOpen = false := cellOpen_eq
    simp only [Layout.closeCell, closed, Sheet.closeCell]
    exact ⟨columns_eq, inHead_eq, by simpa [cells] using row_eq, closed,
      by simp [printRowsSoFar, printRowSoFar, cells, Sheet.tag]⟩
  | some cell =>
    have opened : t.cellOpen = true := cellOpen_eq
    simp only [Layout.closeCell, opened, Sheet.closeCell, if_true]
    refine ⟨columns_eq, inHead_eq, by simpa [cells] using row_eq, rfl, ?_⟩
    rw [closeTag_eq, tag]
    simp [printRowsSoFar, printRowSoFar, cells, Sheet.tag, printCells, Cell.print,
      String.append_assoc]

theorem Describes.openCell (d : Describes columns s out t) (span : Nat) :
    Describes columns (s.openCell span) (out ++ (t.openCell span).1) (t.openCell span).2 := by
  have closed := d.closeCell
  have tag := closed.tag_eq
  simp only [Layout.openCell, Sheet.openCell]
  obtain ⟨head, body, row, cell, rfl⟩ : ∃ head body row cell, s = ⟨head, body, row, cell⟩ :=
    ⟨_, _, _, _, rfl⟩
  obtain ⟨columns_eq, inHead_eq, row_eq, -, out_eq⟩ := closed
  simp only [Sheet.closeCell, cells, Option.toList_none, List.append_nil] at *
  refine ⟨columns_eq, inHead_eq, ?_, rfl, ?_⟩
  · rw [row_eq]
    cases h : row ++ cell.toList <;>
      simp [cells, counted, width, Cell.columns, Nat.add_assoc]
  · rw [← String.append_assoc, ← String.append_assoc, out_eq, openTag_eq, tag, row_eq]
    cases h : row ++ cell.toList <;>
      simp [printRowsSoFar, printRowSoFar, cells, Sheet.tag, printCells, Cell.printOpen,
        String.append_assoc]

theorem Describes.ensureCell (d : Describes columns s out t) :
    Describes columns s.ensureCell (out ++ t.ensureCell.1) t.ensureCell.2 := by
  simp only [Layout.ensureCell, Sheet.ensureCell, d.cellOpen_eq]
  split
  · simpa using d
  · exact d.openCell 1

theorem Describes.nextCell (d : Describes columns s out t) :
    Describes columns s.ensureCell.closeCell (out ++ t.nextCell.1) t.nextCell.2 := by
  simp only [Layout.nextCell, ← String.append_assoc]
  exact d.ensureCell.closeCell

theorem printCells_replicate (tag : String) (n : Nat) :
    printCells tag (List.replicate n ⟨1, ""⟩) =
      String.join (List.replicate n (cellStart tag 1 ++ cellEnd tag)) := by
  simp [printCells, Cell.print, Cell.printOpen]

theorem printCells_append (tag : String) (a b : List Cell) :
    printCells tag (a ++ b) = printCells tag a ++ printCells tag b := by
  simp [printCells]

/-- Where no row is open no cell is, so there is nothing to close. -/
theorem Describes.closeCell_eq (d : Describes columns s out t) (none_ : s.cells = []) :
    t.closeCell = ("", t) := by
  have cell : s.cell = none := by simpa using (List.append_eq_nil_iff.mp none_).2
  have closed : t.cellOpen = false := by rw [d.cellOpen_eq, cell]; rfl
  simp [Layout.closeCell, closed]

theorem cell_completeRow (s : Sheet) : s.completeRow.cell = s.cell := by
  unfold completeRow
  split <;> rfl

theorem isNone_body_completeRow (s : Sheet) : s.completeRow.body.isNone = s.body.isNone := by
  unfold completeRow
  split <;> simp_all

theorem cells_completeRow (closed : s.cell = none) : s.completeRow.cells = [] := by
  unfold completeRow
  split <;> simp [cells, closed]

theorem printRowsSoFar_completeRow (columns : Nat) (s : Sheet) :
    s.completeRow.printRowsSoFar columns =
      s.printRowsSoFar columns ++ printRow columns s.tag s.row := by
  obtain ⟨head, body, row, cell⟩ := s
  cases body <;> simp [completeRow, printRowsSoFar, printRows, Sheet.tag, String.append_assoc]

theorem printRowSoFar_closed (closed : s.cell = none) (some_ : s.row ≠ []) :
    s.printRowSoFar = "  <tr>\n" ++ printCells s.tag s.row := by
  simp [printRowSoFar, cells, closed, some_]

/-- What a row separator writes in an open row. -/
theorem Describes.endRow_eq (d : Describes columns s out t) (some_ : s.cells ≠ []) :
    t.endRow = (t.closeCell.1 ++ printCells s.tag (List.replicate (columns - counted s.cells) ⟨1, ""⟩) ++
      "  </tr>\n", { t.closeCell.2 with row := none, rows := t.closeCell.2.rows + 1 }) := by
  have closed := d.closeCell
  have tag : t.closeCell.2.tag = s.tag := closed.tag_eq
  have row_some : t.row = some (counted s.cells) := by simpa [some_] using d.row_eq
  simp only [Layout.endRow, row_some, openTag_eq, closeTag_eq, tag, closed.columns_eq,
    printCells_replicate]

theorem Describes.endRow (d : Describes columns s out t) :
    Describes columns s.endRow (out ++ t.endRow.1) t.endRow.2 := by
  have closed := d.closeCell
  have row_closed : s.closeCell.row = s.cells := rfl
  by_cases none_ : s.cells = []
  · have nothing : t.endRow = ("", t) := by simp [Layout.endRow, d.row_eq, none_]
    rw [d.closeCell_eq none_] at closed
    simpa [Sheet.endRow, row_closed, none_, nothing] using closed
  · rw [d.endRow_eq none_, Sheet.endRow, if_neg (by simpa [row_closed] using none_)]
    obtain ⟨columns_eq, inHead_eq, -, cellOpen_eq, out_eq⟩ := closed
    have cells_eq := cells_completeRow (s := s.closeCell) rfl
    refine ⟨columns_eq, ?_, by simp [cells_eq], ?_, ?_⟩
    · rw [isNone_body_completeRow]
      exact inHead_eq
    · rw [cell_completeRow]
      exact cellOpen_eq
    · rw [← String.append_assoc, ← String.append_assoc, out_eq, printRowsSoFar_completeRow,
        printRowSoFar_closed rfl none_]
      simp only [printRow, printRowSoFar, cells_eq, row_closed, filled, printCells_append,
        String.append_assoc, String.join_cons, String.join_nil, String.append_empty]
      rfl

theorem cells_endRow (s : Sheet) : s.endRow.cells = [] := by
  unfold endRow
  split
  next none_ => simpa [cells, Sheet.closeCell] using none_
  · exact cells_completeRow rfl

/-- The tag of cells changes where no row is open. -/
theorem Describes.midrule (d : Describes columns s out t) :
    Describes columns s.midrule (out ++ t.midrule.1) t.midrule.2 := by
  have none_ := s.cells_endRow
  obtain ⟨columns_eq, inHead_eq, row_eq, cellOpen_eq, out_eq⟩ := d.endRow
  simp only [Layout.midrule, Sheet.midrule, inHead_eq]
  generalize s.endRow = s at *
  obtain ⟨head, body, row, cell⟩ := s
  cases body with
  | none =>
    refine ⟨columns_eq, rfl, row_eq, cellOpen_eq, ?_⟩
    simp only [cells] at none_
    simp only [Option.isNone_none, if_true, ← String.append_assoc, out_eq]
    simp [printRowsSoFar, printRowSoFar, cells, none_, printRows, String.append_assoc]
  | some rows => exact ⟨columns_eq, inHead_eq, row_eq, cellOpen_eq, out_eq⟩

/-- Content goes to the end of the open cell. -/
theorem Describes.text (d : Describes columns s out t) (content : String)
    (opened : t.cellOpen = true) :
    Describes columns (s.step (.text content)) (out ++ content) t := by
  obtain ⟨columns_eq, inHead_eq, row_eq, cellOpen_eq, rfl⟩ := d
  obtain ⟨head, body, row, cell⟩ := s
  cases cell with
  | none => simp [cellOpen_eq] at opened
  | some cell =>
    refine ⟨columns_eq, inHead_eq, ?_, cellOpen_eq, ?_⟩
    · simpa [cells, step, counted, width, Cell.columns] using row_eq
    · simp [printRowsSoFar, printRowSoFar, cells, step, Sheet.tag, Cell.printOpen,
        String.append_assoc]

theorem Describes.perform (d : Describes columns s out t) (op : Operation) (allowed : t.Allows op) :
    Describes columns (s.step op) (out ++ (t.perform op).1) (t.perform op).2 := by
  cases op with
  | openCell span => exact d.openCell span
  | ensureCell => exact d.ensureCell
  | closeCell => exact d.closeCell
  | nextCell => exact d.nextCell
  | endRow => exact d.endRow
  | midrule => exact d.midrule
  | text content => exact d.text content allowed.1

theorem Describes.run (d : Describes columns s out t) (ops : List Operation)
    (allowed : t.AllowsAll ops) :
    Describes columns (ops.foldl step s) (out ++ (t.run ops).1) (t.run ops).2 := by
  induction ops generalizing s out t with
  | nil => simpa [Layout.run] using d
  | cons op ops ih =>
    have := ih (d.perform op allowed.1) allowed.2
    simpa only [Layout.run, List.foldl_cons, String.append_assoc] using this

theorem Describes.finish (d : Describes columns s out t) :
    out ++ t.finish = s.endRow.print columns := by
  have none_ := s.cells_endRow
  obtain ⟨-, inHead_eq, -, -, out_eq⟩ := d.endRow
  unfold Layout.finish
  simp only [inHead_eq, ← String.append_assoc, out_eq]
  simp only [printRowSoFar, none_]
  cases h : s.endRow.body <;> simp [print, printRowsSoFar, h, String.append_assoc]

/-- What holds of the cells of a sheet, complete or not. -/
structure WellFormed (s : Sheet) : Prop where
  row_ne : ∀ row ∈ s.rows, row ≠ []
  tagFree : ∀ row ∈ s.rows, ∀ cell ∈ row, TagFree cell.content
  tagFree_cells : ∀ cell ∈ s.cells, TagFree cell.content

theorem wellFormed_empty : WellFormed empty := by
  constructor <;> simp [rows, cells, empty]

theorem WellFormed.closeCell (w : WellFormed s) : WellFormed s.closeCell :=
  ⟨w.row_ne, w.tagFree, by simpa [cells, Sheet.closeCell] using w.tagFree_cells⟩

theorem WellFormed.openCell (w : WellFormed s) (span : Nat) : WellFormed (s.openCell span) := by
  refine ⟨w.row_ne, w.tagFree, fun cell member => ?_⟩
  rcases List.mem_append.mp member with old | new
  · exact w.tagFree_cells cell old
  · obtain rfl : cell = ⟨span, ""⟩ := by simpa [Sheet.openCell] using new
    simp [TagFree]

theorem WellFormed.ensureCell (w : WellFormed s) : WellFormed s.ensureCell := by
  unfold Sheet.ensureCell
  split
  · exact w
  · exact w.openCell 1

theorem mem_rows_completeRow {row : List Cell} (member : row ∈ s.completeRow.rows) :
    row ∈ s.rows ∨ row = s.row := by
  unfold completeRow at member
  cases body : s.body with
  | none =>
    simp only [rows, body, Option.getD_none, List.append_nil] at member ⊢
    exact (List.mem_append.mp member).imp id List.mem_singleton.mp
  | some below =>
    simp only [rows, body, Option.getD_some] at member ⊢
    rw [← List.append_assoc] at member
    exact (List.mem_append.mp member).imp id List.mem_singleton.mp

theorem WellFormed.endRow (w : WellFormed s) : WellFormed s.endRow := by
  have closed := w.closeCell
  unfold Sheet.endRow
  split
  · exact closed
  next some_ =>
    refine ⟨fun row member => ?_, fun row member => ?_, ?_⟩
    · rcases mem_rows_completeRow member with old | rfl
      · exact w.row_ne row old
      · simpa using some_
    · rcases mem_rows_completeRow member with old | rfl
      · exact w.tagFree row old
      · exact w.tagFree_cells
    · simp [cells_completeRow (s := s.closeCell) rfl]

theorem WellFormed.midrule (w : WellFormed s) : WellFormed s.midrule := by
  have rows_eq : s.midrule.rows = s.endRow.rows := by
    simp [rows, Sheet.midrule]
  obtain ⟨row_ne, tagFree, tagFree_cells⟩ := w.endRow
  exact ⟨by rwa [rows_eq], by rwa [rows_eq], tagFree_cells⟩

theorem tagFree_append {a b : String} (h : TagFree a) (k : TagFree b) : TagFree (a ++ b) := by
  intro c member
  rw [String.toList_append, List.mem_append] at member
  exact member.elim (h c) (k c)

theorem WellFormed.step (w : WellFormed s) (op : Operation) (allowed : t.Allows op) :
    WellFormed (s.step op) := by
  cases op with
  | openCell span => exact w.openCell span
  | ensureCell => exact w.ensureCell
  | closeCell => exact w.closeCell
  | nextCell => exact w.ensureCell.closeCell
  | endRow => exact w.endRow
  | midrule => exact w.midrule
  | text content =>
    refine ⟨w.row_ne, w.tagFree, fun cell member => ?_⟩
    rcases List.mem_append.mp member with old | new
    · exact w.tagFree_cells cell (List.mem_append_left _ old)
    · obtain ⟨before, at_, rfl⟩ : ∃ before, s.cell = some before ∧
          ⟨before.span, before.content ++ content⟩ = cell := by simpa [Sheet.step] using new
      have free := w.tagFree_cells before (List.mem_append_right _ (by simp [at_]))
      exact tagFree_append free allowed.2

theorem WellFormed.run (w : WellFormed s) (ops : List Operation) (allowed : t.AllowsAll ops) :
    WellFormed (ops.foldl Sheet.step s) := by
  induction ops generalizing s t with
  | nil => exact w
  | cons op ops ih => exact ih (w.step op allowed.1) allowed.2

theorem isSome_body_endRow (s : Sheet) : s.endRow.body.isSome = s.body.isSome := by
  unfold endRow
  split
  · rfl
  · rw [← Option.not_isNone, isNone_body_completeRow, Option.not_isNone]
    rfl

theorem isSome_body_step (s : Sheet) (op : Operation) :
    (s.step op).body.isSome ↔ s.body.isSome ∨ .midrule = op := by
  have ensure : s.ensureCell.body = s.body := by
    unfold ensureCell
    split <;> rfl
  cases op with
  | openCell | closeCell | text => simp [step, openCell, closeCell]
  | ensureCell => simp [step, ensure]
  | nextCell => simp [step, closeCell, ensure]
  | endRow => simp [step, isSome_body_endRow]
  | midrule => simp [step, midrule]

theorem isSome_body_foldl (s : Sheet) (ops : List Operation) :
    (ops.foldl step s).body.isSome ↔ s.body.isSome ∨ .midrule ∈ ops := by
  induction ops generalizing s with
  | nil => simp
  | cons op ops ih => rw [List.foldl_cons, ih, isSome_body_step, List.mem_cons, or_assoc]

theorem width_filled (columns : Nat) (row : List Cell) :
    width (filled columns row) = width row + (columns - counted row) := by
  simp only [width, filled, List.map_append, List.sum_append, List.map_replicate, Cell.columns,
    Nat.max_self, List.sum_replicate_nat, Nat.mul_one]

theorem counted_lt (row : List Cell) : counted row < Layout.wordSize :=
  Nat.mod_lt _ (Nat.two_pow_pos 64)

/-- As a layout counts, a filled row is as wide as the table or as its own cells. -/
theorem counted_filled (row : List Cell) (small : columns < Layout.wordSize) :
    counted (filled columns row) = max columns (counted row) := by
  have own := counted_lt row
  have sum : counted (filled columns row) =
      (counted row + (columns - counted row)) % Layout.wordSize := by
    rw [counted, width_filled, counted, Nat.mod_add_mod]
  rw [sum, Nat.mod_eq_of_lt (by omega)]
  omega

theorem counted_eq {row : List Cell} (countable : width row < Layout.wordSize) :
    counted row = width row :=
  Nat.mod_eq_of_lt countable

/-- The same in plain numbers, for cells that do not take more columns than can be counted. -/
theorem width_filled_eq {row : List Cell} (countable : width row < Layout.wordSize) :
    width (filled columns row) = max columns (width row) := by
  rw [width_filled, counted_eq countable]
  omega

/-- Every run of operations writes a head and, after the first rule, a body, in rows of closed cells
that are as wide as the table or as their own cells. Columns are counted in machine words, so this
holds of the sums as words, and of the plain sums unless the cells of a row exceed a word. -/
theorem written_run (columns : Nat) (ops : List Operation)
    (allowed : (Layout.start columns).2.AllowsAll ops) :
    Layout.written columns ops = (ofRun ops).print columns ∧
      ((ofRun ops).body.isSome ↔ .midrule ∈ ops) ∧
      ∀ row ∈ (ofRun ops).rows,
        row ≠ [] ∧ (∀ cell ∈ row, TagFree cell.content) ∧
          (columns < Layout.wordSize →
            counted (filled columns row) = max columns (counted row)) ∧
          (width row < Layout.wordSize →
            width (filled columns row) = max columns (width row)) := by
  have formed : WellFormed (ofRun ops) := (wellFormed_empty.run ops allowed).endRow
  refine ⟨((describes_start columns).run ops allowed).finish, ?_, ?_⟩
  · rw [ofRun, isSome_body_endRow, isSome_body_foldl]
    simp [empty]
  intro row member
  exact ⟨formed.row_ne row member, formed.tagFree row member, counted_filled row, width_filled_eq⟩

/-- Two rules, a separator without a cell and a row left open at the end. -/
theorem written_run_of_two_rules :
    (Layout.start 3).2.AllowsAll
        [.openCell 2, .text "a", .midrule, .nextCell, .endRow, .midrule, .openCell 0] ∧
      Layout.written 3 [.openCell 2, .text "a", .midrule, .nextCell, .endRow, .midrule, .openCell 0] =
        .join ["<table class='table'>\n<thead>\n",
          "  <tr>\n    <th colspan='2'>a</th>\n    <th></th>\n  </tr>\n",
          "</thead>\n<tbody>\n",
          "  <tr>\n    <td></td>\n    <td></td>\n    <td></td>\n  </tr>\n",
          "  <tr>\n    <td></td>\n    <td></td>\n    <td></td>\n  </tr>\n",
          "</tbody>\n</table>\n"] := by
  have allowed : (Layout.start 3).2.AllowsAll
      [.openCell 2, .text "a", .midrule, .nextCell, .endRow, .midrule, .openCell 0] := by
    decide +kernel
  exact ⟨allowed, (written_run 3 _ allowed).1.trans (by decide +kernel)⟩

end Sheet
end Quire.Table
