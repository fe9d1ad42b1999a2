import Quire.Proofs.Prose.Plain
import Quire.Proofs.Table.Sheet
import Quire.Table.Cells

/-! Grids of plain text: how a table with such cells is written in a source, and the sheet that its
text is read into. -/
namespace Quire.Table

/-- Rows of plain cells. A cell that is alone in its row is not blank: a line of blanks makes no
row. -/
structure Grid where
  columns : Nat
  rows : List (List String)
  /-- How many rows stand above the rule. -/
  rule : Option Nat
  columns_pos : 0 < columns
  columns_lt : columns < Layout.wordSize
  row_ne : ∀ row ∈ rows, row ≠ []
  row_le : ∀ row ∈ rows, row.length ≤ columns
  plain : ∀ row ∈ rows, ∀ cell ∈ row, Prose.IsPlain cell.toList
  single : ∀ row ∈ rows, row.length = 1 → ∀ cell ∈ row, Text.allBlank cell = false
  rule_le : ∀ above ∈ rule, 0 < above ∧ above ≤ rows.length

def rowSource (row : List String) : String := " & ".intercalate row ++ " \\\\\n"

def rowsSource (rows : List (List String)) : String := .join (rows.map rowSource)

def Grid.body (g : Grid) : String :=
  match g.rule with
  | none => rowsSource g.rows
  | some above =>
    .join [rowsSource (g.rows.take above), "\\midrule\n", rowsSource (g.rows.drop above)]

def Grid.source (g : Grid) : String :=
  .join ["\\begin\x7btabular\x7d\x7b", .ofList (List.replicate g.columns 'l'), "\x7d\n", g.body,
    "\\end\x7btabular\x7d"]

/-- The texts between the separators of a row, of which the first follows `lead`. -/
def padded (lead : String) : List String → List String
  | [] => []
  | cell :: cells => (lead ++ cell ++ " ") :: padded " " cells

def rowTokens : List String → List CellToken
  | [] => []
  | [text] => [.text text, .row]
  | text :: texts => .text text :: .column :: rowTokens texts

def sectionTokens (rows : List (List String)) : List CellToken :=
  rows.flatMap (fun row => rowTokens (padded "\n" row)) ++ [.text "\n"]

section Split
variable {cs rest : List Char}

/-- A text without separators goes to the next separator. -/
theorem cellParts_append (plain : ∀ c ∈ cs, c ∉ Prose.markupChars) (rest : List Char) :
    cellParts (cs ++ rest) = (cellParts rest).prepend cs := by
  induction cs with
  | nil => rfl
  | cons c cs ih =>
    have ordinary := plain c (by simp)
    have slash : c ≠ '\\' := by rintro rfl; exact ordinary (by decide)
    have percent : c ≠ '%' := by rintro rfl; exact ordinary (by decide)
    have column : c ≠ '&' := by rintro rfl; exact ordinary (by decide)
    rw [List.cons_append, cellParts]
    · rw [if_neg percent, if_neg column, ih fun d member => plain d (List.mem_cons_of_mem c member)]
      rfl
    · exact fun _ same _ => slash same
    · exact fun _ _ same _ => slash same

theorem cellParts_column : cellParts ('&' :: rest) = ([], .column :: (cellParts rest).close) := by
  rw [cellParts] <;> simp

/-- A line feed behind a row separator is no space in brackets. -/
theorem cellParts_row :
    cellParts ('\\' :: '\\' :: '\n' :: rest) = ([], .row :: (cellParts ('\n' :: rest)).close) := by
  rw [cellParts]
  rfl

theorem close_prepend (filled : cs ≠ []) (tokens : List CellToken) :
    (CellParts.prepend cs ([], tokens)).close = .text (.ofList cs) :: tokens := by
  cases cs with
  | nil => exact absurd rfl filled
  | cons c cs => simp [CellParts.prepend, CellParts.close]

theorem rowSource_cons (lead cell next : String) (cells : List String) :
    lead ++ rowSource (cell :: next :: cells) =
      (lead ++ cell ++ " ") ++ "&" ++ (" " ++ rowSource (next :: cells)) := by
  have parted : " & " = " " ++ "&" ++ " " := by decide
  rw [rowSource, String.intercalate_cons_cons, rowSource, parted]
  simp only [String.append_assoc]

theorem rowSource_singleton (lead cell : String) :
    lead ++ rowSource [cell] = (lead ++ cell ++ " ") ++ "\\\\\n" := by
  have ended : " \\\\\n" = " " ++ "\\\\\n" := by decide
  rw [rowSource, String.intercalate_singleton, ended]
  simp only [String.append_assoc]

theorem close_cellParts_row {row : List String} (lead : String) (row_ne : row ≠ [])
    (plain : ∀ text ∈ padded lead row, Prose.IsPlain text.toList) (rest : List Char) :
    (cellParts ((lead ++ rowSource row).toList ++ rest)).close =
      rowTokens (padded lead row) ++ (cellParts ('\n' :: rest)).close := by
  induction row generalizing lead with
  | nil => exact absurd rfl row_ne
  | cons cell cells ih =>
    have ordinary := (plain _ List.mem_cons_self).1
    have filled : (lead ++ cell ++ " ").toList ≠ [] := by simp
    cases cells with
    | nil =>
      rw [rowSource_singleton, String.toList_append, List.append_assoc, cellParts_append ordinary]
      have row : "\\\\\n".toList ++ rest = '\\' :: '\\' :: '\n' :: rest := rfl
      rw [row, cellParts_row, close_prepend filled, String.ofList_toList]
      rfl
    | cons next cells =>
      rw [rowSource_cons, String.toList_append, String.toList_append, List.append_assoc,
        List.append_assoc, cellParts_append ordinary]
      have column (more : List Char) : "&".toList ++ more = '&' :: more := rfl
      rw [column, cellParts_column, close_prepend filled, String.ofList_toList,
        ih " " (by simp) fun text member => plain text (List.mem_cons_of_mem _ member)]
      rfl

theorem isPlain_padded {lead : Char} {row : List String} (leading : lead = '\n' ∨ lead = ' ')
    (plain : ∀ cell ∈ row, Prose.IsPlain cell.toList) :
    ∀ text ∈ padded (.singleton lead) row, Prose.IsPlain text.toList := by
  induction row generalizing lead with
  | nil => simp [padded]
  | cons cell cells ih =>
    intro text member
    rcases List.mem_cons.mp member with rfl | behind
    · simpa using (plain cell (by simp)).pad leading
    · exact ih (.inr rfl) (fun cell member => plain cell (List.mem_cons_of_mem _ member)) text
        behind

theorem splitCells_section {rows : List (List String)} (row_ne : ∀ row ∈ rows, row ≠ [])
    (plain : ∀ row ∈ rows, ∀ cell ∈ row, Prose.IsPlain cell.toList) :
    splitCells ("\n" ++ rowsSource rows) = sectionTokens rows := by
  have split (behind : String) : (cellParts ('\n' :: behind.toList)).close =
      splitCells ("\n" ++ behind) := by
    rw [splitCells, String.toList_append]
    rfl
  induction rows with
  | nil =>
    have feed : Prose.IsPlain ['\n'] := by decide
    have blank : cellParts (['\n'] ++ []) = CellParts.prepend ['\n'] ([], []) := by
      rw [cellParts_append feed.1, cellParts]
    exact (congrArg CellParts.close blank).trans (close_prepend (by simp) [])
  | cons row rows ih =>
    have texts := @isPlain_padded '\n' row (.inl rfl) (plain row (by simp))
    have behind := ih (fun row member => row_ne row (List.mem_cons_of_mem _ member))
      fun row member => plain row (List.mem_cons_of_mem _ member)
    have source : "\n" ++ rowsSource (row :: rows) = "\n" ++ rowSource row ++ rowsSource rows := by
      simp [rowsSource, String.append_assoc]
    rw [splitCells, source, String.toList_append,
      close_cellParts_row "\n" (row_ne row (by simp)) texts, split, behind]
    simp [sectionTokens]

theorem text_mem_rowTokens {texts : List String} {raw : String}
    (member : .text raw ∈ rowTokens texts) : raw ∈ texts := by
  induction texts with
  | nil => simp [rowTokens] at member
  | cons text texts ih =>
    cases texts with
    | nil => simpa [rowTokens] using member
    | cons next texts =>
      have tokens : rowTokens (text :: next :: texts) =
          .text text :: .column :: rowTokens (next :: texts) := rfl
      rw [tokens] at member
      rcases List.mem_cons.mp member with same | behind
      · cases same
        exact List.mem_cons_self
      · exact List.mem_cons_of_mem _ (ih (by simpa using behind))

theorem isPlain_sectionTokens {rows : List (List String)}
    (plain : ∀ row ∈ rows, ∀ cell ∈ row, Prose.IsPlain cell.toList) (raw : String)
    (member : .text raw ∈ sectionTokens rows) : Prose.IsPlain raw.toList := by
  rcases List.mem_append.mp member with inner | last
  · obtain ⟨row, row_mem, inner⟩ := List.mem_flatMap.mp inner
    exact @isPlain_padded '\n' row (.inl rfl) (plain row row_mem) raw (text_mem_rowTokens inner)
  · obtain rfl : raw = "\n" := by simpa using last
    decide

end Split

/-- What the sheet of a table becomes by one token of its text. -/
def Sheet.read (s : Sheet) : CellToken → Sheet
  | .text content =>
    if Text.allBlank content && s.cell.isNone then s else s.ensureCell.step (.text content)
  | .column => s.step .nextCell
  | .row => s.step .endRow

def cellOf (text : String) : Cell := ⟨1, if Text.allBlank text then "" else text⟩

/-- The cells that the texts between the separators of a row make. Behind the last separator
nothing but text makes a cell. -/
def cellsOf : List String → List Cell
  | [] => []
  | [text] => if Text.allBlank text then [] else [cellOf text]
  | text :: texts => cellOf text :: cellsOf texts

def Sheet.addRows (rows : List (List Cell)) (s : Sheet) : Sheet :=
  match s.body with
  | none => { s with head := s.head ++ rows }
  | some above => { s with body := some (above ++ rows) }

section Read
variable {head : List (List Cell)} {body : Option (List (List Cell))} {row : List Cell}

theorem read_text (text : String) :
    (Sheet.mk head body row none).read (.text text) =
      if Text.allBlank text then ⟨head, body, row, none⟩
      else ⟨head, body, row, some (cellOf text)⟩ := by
  by_cases blank : Text.allBlank text = true
  · simp [Sheet.read, blank]
  · simp [Sheet.read, blank, Sheet.closeCell, Sheet.ensureCell, Sheet.openCell, Sheet.step, cellOf]

theorem read_column (text : String) :
    ((Sheet.mk head body row none).read (.text text)).read .column =
      ⟨head, body, row ++ [cellOf text], none⟩ := by
  rw [read_text]
  split
  next blank =>
    simp [Sheet.read, Sheet.step, Sheet.ensureCell, Sheet.openCell, Sheet.closeCell, cellOf, blank]
  next => simp [Sheet.read, Sheet.step, Sheet.ensureCell, Sheet.closeCell]

theorem read_row (text : String) :
    ((Sheet.mk head body row none).read (.text text)).read .row =
      Sheet.endRow ⟨head, body, row ++ cellsOf [text], none⟩ := by
  rw [read_text, cellsOf]
  split
  next => simp [Sheet.read, Sheet.step]
  next => simp [Sheet.read, Sheet.step, Sheet.endRow, Sheet.closeCell]

theorem foldl_read_rowTokens {texts : List String} (texts_ne : texts ≠ []) :
    (rowTokens texts).foldl Sheet.read ⟨head, body, row, none⟩ =
      Sheet.endRow ⟨head, body, row ++ cellsOf texts, none⟩ := by
  induction texts generalizing row with
  | nil => exact absurd rfl texts_ne
  | cons text texts ih =>
    cases texts with
    | nil => exact read_row text
    | cons next texts =>
      have tokens : rowTokens (text :: next :: texts) =
          .text text :: .column :: rowTokens (next :: texts) := rfl
      rw [tokens, List.foldl_cons, List.foldl_cons, read_column, ih (by simp), List.append_assoc]
      rfl

/-- Only a single blank text makes no cell. -/
theorem cellsOf_ne_nil {texts : List String} (texts_ne : texts ≠ [])
    (single : ∀ text, texts = [text] → Text.allBlank text = false) : cellsOf texts ≠ [] := by
  match texts with
  | [] => exact absurd rfl texts_ne
  | [text] => simp [cellsOf, single text rfl]
  | _ :: _ :: _ => simp [cellsOf]

theorem endRow_eq (some_ : row ≠ []) :
    Sheet.endRow ⟨head, body, row, none⟩ = (Sheet.mk head body [] none).addRows [row] := by
  have filled : row.isEmpty = false := by simpa using some_
  cases body <;> simp [Sheet.endRow, Sheet.closeCell, filled, Sheet.completeRow, Sheet.addRows]

theorem foldl_read_section {rows : List (List String)}
    (cells_ne : ∀ row ∈ rows, row ≠ [] ∧ cellsOf (padded "\n" row) ≠ []) :
    (sectionTokens rows).foldl Sheet.read ⟨head, body, [], none⟩ =
      (Sheet.mk head body [] none).addRows (rows.map fun row => cellsOf (padded "\n" row)) := by
  induction rows generalizing head body with
  | nil =>
    have blank : Text.allBlank "\n" = true := by decide
    cases body <;> simp [sectionTokens, read_text, blank, Sheet.addRows]
  | cons row rows ih =>
    obtain ⟨row_ne, made⟩ := cells_ne row (by simp)
    have texts_ne : padded "\n" row ≠ [] := by cases row <;> simp_all [padded]
    have tokens : sectionTokens (row :: rows) =
        rowTokens (padded "\n" row) ++ sectionTokens rows := by
      simp [sectionTokens]
    have behind (head body) := @ih head body fun row member =>
      cells_ne row (List.mem_cons_of_mem _ member)
    rw [tokens, List.foldl_append, foldl_read_rowTokens texts_ne, List.nil_append, endRow_eq made]
    cases body with
    | none => simpa [Sheet.addRows] using behind (head ++ [cellsOf (padded "\n" row)]) none
    | some above =>
      simpa [Sheet.addRows] using behind head (some (above ++ [cellsOf (padded "\n" row)]))

end Read

/-- A cell for each column, with the texts in the first of them, but for the white space around
them. -/
structure RowShows (columns : Nat) (texts : List String) (row : List Cell) : Prop where
  length_eq : row.length = columns
  cell : ∀ j < columns, ∃ c, row[j]? = some c ∧ c.span = 1 ∧
    Text.trim c.content = Text.trim (texts.getD j "")

section Filled
variable {columns : Nat} {texts : List String}

theorem width_cellsOf_le (texts : List String) : width (cellsOf texts) ≤ texts.length := by
  induction texts with
  | nil => simp [cellsOf, width]
  | cons text texts ih =>
    have one : (cellOf text).columns = 1 := rfl
    cases texts with
    | nil =>
      rw [cellsOf]
      split <;> simp [width, one]
    | cons next texts =>
      have cells : cellsOf (text :: next :: texts) = cellOf text :: cellsOf (next :: texts) := rfl
      rw [cells, width, List.map_cons, List.sum_cons, one, ← width, List.length_cons]
      omega

theorem cellsOf_append_replicate (fits : texts.length ≤ columns) :
    cellsOf texts ++ List.replicate (columns - width (cellsOf texts)) ⟨1, ""⟩ =
      texts.map cellOf ++ List.replicate (columns - texts.length) ⟨1, ""⟩ := by
  induction texts generalizing columns with
  | nil => simp [cellsOf, width]
  | cons text texts ih =>
    obtain ⟨columns, rfl⟩ : ∃ n, columns = n + 1 := ⟨columns - 1, by simp at fits; omega⟩
    have fits_ : texts.length ≤ columns := by simpa using fits
    cases texts with
    | nil =>
      by_cases blank : Text.allBlank text = true
      · simp [cellsOf, cellOf, width, blank, List.replicate_succ]
      · simp [cellsOf, cellOf, width, blank, Cell.columns]
    | cons next texts =>
      have one : (cellOf text).columns = 1 := rfl
      have behind := ih fits_
      have cells : cellsOf (text :: next :: texts) = cellOf text :: cellsOf (next :: texts) := rfl
      rw [cells, width, List.map_cons, List.sum_cons, one, List.cons_append,
        Nat.add_comm columns 1, Nat.add_sub_add_left, ← width, behind]
      simp [Nat.add_comm 1 columns]

theorem filled_cellsOf (fits : texts.length ≤ columns) (small : columns < Layout.wordSize) :
    filled columns (cellsOf texts) =
      texts.map cellOf ++ List.replicate (columns - texts.length) ⟨1, ""⟩ := by
  have narrow := width_cellsOf_le texts
  rw [filled, Sheet.counted_eq (by omega), cellsOf_append_replicate fits]

theorem length_padded (lead : String) (row : List String) :
    (padded lead row).length = row.length := by
  induction row generalizing lead with
  | nil => rfl
  | cons cell cells ih => simp [padded, ih]

theorem trim_cellOf (text : String) : Text.trim (cellOf text).content = Text.trim text := by
  unfold cellOf
  dsimp only
  split
  next blank => rw [Text.trim_of_allBlank blank]; decide
  next => rfl

theorem trim_padded {lead : String} (blank : Text.allBlank lead = true) (row : List String) :
    (padded lead row).map Text.trim = row.map Text.trim := by
  induction row generalizing lead with
  | nil => rfl
  | cons cell cells ih =>
    rw [padded, List.map_cons, List.map_cons, Text.trim_pad blank (by decide), ih (by decide)]

/-- The white space at the separators is around the texts of cells. -/
theorem rowShows_filled {row : List String} (fits : row.length ≤ columns)
    (small : columns < Layout.wordSize) :
    RowShows columns row (filled columns (cellsOf (padded "\n" row))) := by
  have length := length_padded "\n" row
  rw [filled_cellsOf (by rw [length]; exact fits) small, length]
  refine ⟨by simp [length]; omega, fun j inside => ?_⟩
  by_cases written : j < row.length
  · have blank : Text.allBlank "\n" = true := by decide
    have trimmed := congrArg (·[j]?) (trim_padded blank row)
    have at_ : j < (padded "\n" row).length := by rw [length]; exact written
    refine ⟨cellOf (padded "\n" row)[j], ?_, rfl, ?_⟩
    · rw [List.getElem?_append_left (by simpa using at_), List.getElem?_map,
        List.getElem?_eq_getElem at_]
      rfl
    · rw [trim_cellOf]
      simpa [written, at_] using trimmed
  · refine ⟨⟨1, ""⟩, ?_, rfl, ?_⟩
    · rw [List.getElem?_append_right (by simpa [length] using written), List.getElem?_replicate]
      simp [length]
      omega
    · rw [List.getD_eq_getElem?_getD, List.getElem?_eq_none (by omega)]
      rfl

theorem filled_filled (row : List Cell) (small : columns < Layout.wordSize) :
    filled columns (filled columns row) = filled columns row := by
  have full : columns - counted (filled columns row) = 0 := by
    rw [Sheet.counted_filled row small]
    omega
  rw [filled, full]
  simp

theorem printRows_filled (tag : String) (rows : List (List Cell))
    (small : columns < Layout.wordSize) :
    printRows columns tag (rows.map (filled columns)) = printRows columns tag rows := by
  simp only [printRows, List.map_map]
  congr 1
  exact List.map_congr_left fun row _ => by simp [printRow, filled_filled row small]

theorem print_filled (head : List (List Cell)) (body : Option (List (List Cell)))
    (small : columns < Layout.wordSize) :
    Sheet.print columns ⟨head.map (filled columns), body.map (·.map (filled columns)), [], none⟩ =
      Sheet.print columns ⟨head, body, [], none⟩ := by
  cases body <;> simp [Sheet.print, printRows_filled _ _ small]

end Filled

end Quire.Table
