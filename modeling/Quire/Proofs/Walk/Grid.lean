import Quire.Asset.Picture
import Quire.Proofs.Table.Source
import Quire.Walk

/-! Rendering a grid. A walk inside a table lays out the sheet of the table; from the source of a
grid it lays out the rows of the grid. -/
namespace Quire.Walk

open Table

/-- A step that does nothing but take a table from one sheet to another. -/
def Lays (columns : Nat) (step : Walk Unit) (a b : Sheet) : Prop :=
  ∀ (s : State) (t : Layout), s.table = some t → a.Describes columns s.out t →
    ∃ out' t', b.Describes columns out' t' ∧
      step s = (.ok (), { s with out := out', table := some t' })

namespace Lays

variable {columns : Nat} {step next : Walk Unit} {a b c : Sheet} {ctx : Context}

theorem pure : Lays columns (Walk.pure_ ()) a a := by
  intro s t open_ describes
  refine ⟨s.out, t, describes, ?_⟩
  rw [← open_]
  rfl

theorem bind (first : Lays columns step a b) (second : Lays columns next b c) :
    Lays columns (bind_ step fun _ => next) a c := by
  intro s t open_ describes
  obtain ⟨out, t', describes, ran⟩ := first s t open_ describes
  obtain ⟨out', t'', describes, ran'⟩ :=
    second { s with out, table := some t' } t' rfl describes
  refine ⟨out', t'', describes, ?_⟩
  rw [bind_, ran]
  exact ran'

theorem deeper (inner : Lays columns step a b) : Lays columns (deeper step) a b := by
  intro s t open_ describes
  obtain ⟨out, t', describes, ran⟩ := inner { s with depth := s.depth + 1 } t open_ describes
  refine ⟨out, t', describes, ?_⟩
  rw [Walk.deeper, within, ran]
  rfl

theorem layTable_eq {s : State} {t : Layout} (open_ : s.table = some t)
    (act : Layout → String × Layout) :
    s.layTable act = { s with out := s.out ++ (act t).1, table := some (act t).2 } := by
  unfold State.layTable
  rw [open_]

/-- Separators and rules. -/
theorem lay (op : Operation) (allowed : ∀ t : Layout, t.Allows op) :
    Lays columns (modify (·.layTable (·.perform op))) a (a.step op) := by
  intro s t open_ describes
  refine ⟨_, _, describes.perform op (allowed t), ?_⟩
  rw [modify, layTable_eq open_]

theorem writeCell (text : String) :
    Lays columns (modify (writeCell text)) a (a.read (.text text)) := by
  intro s t open_ describes
  have opened : (s.table.map (·.cellOpen)).getD false = a.cell.isSome := by
    rw [open_]
    exact describes.cellOpen_eq
  simp only [Sheet.read, modify, Walk.writeCell, opened, Option.not_isSome]
  split
  next =>
    refine ⟨s.out, t, describes, ?_⟩
    rw [← open_]
  next =>
    have ensured := describes.ensureCell
    have cell : t.ensureCell.2.cellOpen = true := by
      rw [ensured.cellOpen_eq, Sheet.ensureCell]
      split
      · assumption
      · rfl
    refine ⟨_, _, ensured.text text cell, ?_⟩
    simp [layTable_eq open_, State.write, State.betweenCells, cell]

theorem cellToken (token : CellToken)
    (plain : ∀ raw, token = .text raw → Prose.IsPlain raw.toList) :
    Lays columns (cellToken token) a (a.read token) := by
  cases token with
  | text raw =>
    have same : Walk.cellToken (.text raw) = modify (Walk.writeCell raw) := by
      rw [Walk.cellToken, Prose.normalize_plain (plain raw rfl)]
      rfl
    rw [same]
    exact writeCell raw
  | column => exact lay .nextCell fun _ => trivial
  | row => exact lay .endRow fun _ => trivial

theorem forM {tokens : List CellToken}
    (plain : ∀ raw, .text raw ∈ tokens → Prose.IsPlain raw.toList) :
    Lays columns (tokens.forM Walk.cellToken) a (tokens.foldl Sheet.read a) := by
  induction tokens generalizing a with
  | nil => exact pure
  | cons token tokens ih =>
    have first : Lays columns (Walk.cellToken token) a (a.read token) :=
      cellToken token fun raw eq => plain raw (by simp [eq])
    exact first.bind (ih fun raw member => plain raw (List.mem_cons_of_mem token member))

theorem text {raw : String}
    (plain : ∀ text, .text text ∈ splitCells raw → Prose.IsPlain text.toList) :
    Lays columns (Walk.text ctx raw) a ((splitCells raw).foldl Sheet.read a) := by
  intro s t open_ describes
  obtain ⟨out, t', describes, ran⟩ := Lays.forM plain s t open_ describes
  refine ⟨out, t', describes, ?_⟩
  rw [← ran]
  have inTable : s.table.isSome = true := by rw [open_]; rfl
  exact congrFun (if_pos inTable) s

end Lays

/-- Neighbours that are texts are walked as one text. -/
theorem neighbours_texts {raw : String} {texts rest : List Node} (ctx : Context)
    (are : IsTexts raw texts) (texts_ne : texts ≠ []) (other : rest.takeWhile (·.isText) = []) :
    neighbours ctx (texts ++ rest) = bind_ (text ctx raw) fun _ => neighbours ctx rest := by
  obtain ⟨all, source⟩ := are
  obtain ⟨node, texts, rfl⟩ := List.exists_cons_of_ne_nil texts_ne
  cases node with
  | command | environment | group | math => exact nomatch all _ List.mem_cons_self
  | text content =>
    have behind : ∀ node ∈ texts, node.isText = true :=
      fun node member => all node (List.mem_cons_of_mem _ member)
    have ahead : textAhead (texts ++ rest) = Node.sourceOf texts := by
      rw [textAhead, List.takeWhile_append_of_pos behind, other, List.append_nil]
    have left : remaining (.text content) (texts ++ rest) = rest := by
      rw [remaining, List.dropWhile_append_of_pos behind]
      have parts := List.takeWhile_append_dropWhile (p := (·.isText)) (l := rest)
      rwa [other, List.nil_append] at parts
    rw [List.cons_append, neighbours_cons, left]
    simp only [visit, ahead]
    rw [← source]
    rfl

section Grid
variable (g : Grid) {columns : Nat} {ctx : Context} {head : List (List Cell)}
  {body : Option (List (List Cell))}

/-- The cells of a row of a grid that anything is written for. -/
def rowCells (row : List String) : List Cell := cellsOf (padded "\n" row)

theorem splitCells_sectionSource {rows : List (List String)} (sub : rows ⊆ g.rows) :
    splitCells (sectionSource rows) = sectionTokens rows :=
  splitCells_section (fun row member => g.row_ne row (sub member))
    fun row member => g.plain row (sub member)

theorem rowCells_ne_nil {row : List String} (member : row ∈ g.rows) : rowCells row ≠ [] := by
  have row_ne := g.row_ne row member
  refine cellsOf_ne_nil (fun none_ => row_ne ?_) fun text single => ?_
  · have length := length_padded "\n" row
    rw [none_] at length
    exact List.eq_nil_of_length_eq_zero length.symm
  · cases row with
    | nil => cases single
    | cons cell cells =>
      cases cells with
      | cons next cells => cases single
      | nil =>
        obtain rfl : "\n" ++ cell ++ " " = text := by simpa [padded] using single
        rw [Text.allBlank_append, Text.allBlank_append, g.single _ member rfl cell (by simp)]
        simp

/-- The texts of a section lay out its rows. -/
theorem lays_section {rows : List (List String)} {texts rest : List Node} {sheet : Sheet}
    (sub : rows ⊆ g.rows) (are : IsTexts (sectionSource rows) texts)
    (other : rest.takeWhile (·.isText) = [])
    (behind : Lays columns (neighbours ctx rest)
      ((Sheet.mk head body [] none).addRows (rows.map rowCells)) sheet) :
    Lays columns (neighbours ctx (texts ++ rest)) ⟨head, body, [], none⟩ sheet := by
  have texts_ne : texts ≠ [] := by
    rintro rfl
    have feed := toList_sectionSource rows
    rw [← are.2] at feed
    cases feed
  have split := splitCells_sectionSource g sub
  have made : ∀ row ∈ rows, row ≠ [] ∧ cellsOf (padded "\n" row) ≠ [] := fun row member =>
    ⟨g.row_ne row (sub member), rowCells_ne_nil g (sub member)⟩
  have laid : Lays columns (text ctx (sectionSource rows)) ⟨head, body, [], none⟩
      ((Sheet.mk head body [] none).addRows (rows.map rowCells)) := by
    have read := @Lays.text columns ⟨head, body, [], none⟩ ctx (sectionSource rows) (by
      rw [split]
      exact isPlain_sectionTokens fun row member => g.plain row (sub member))
    rwa [split, foldl_read_section made] at read
  rw [neighbours_texts ctx are texts_ne other]
  exact laid.bind behind

theorem lays_rule {rest : List Node} {a b : Sheet}
    (behind : Lays columns (neighbours ctx rest) a.midrule b) :
    Lays columns (neighbours ctx (.command "midrule" [] :: rest)) a b := by
  have role : Role.ofName "midrule" = .rule := by decide
  have left : remaining (.command "midrule" []) rest = rest := by
    simp only [remaining, roleOf?, role]
  rw [neighbours_cons, left]
  simp only [visit, role]
  exact (Lays.lay .midrule fun _ => trivial).bind behind

def sheetOf : Sheet where
  head := (g.rows.take (g.rule.getD g.rows.length)).map rowCells
  body := g.rule.map fun above => (g.rows.drop above).map rowCells
  row := []
  cell := none

theorem lays_children {children : List Node} (are : g.IsChildren children) :
    Lays columns (neighbours ctx children) .empty (sheetOf g) := by
  have pure_ : ∀ sheet, Lays columns (neighbours ctx []) sheet sheet := by
    intro sheet
    rw [neighbours_nil]
    exact .pure
  unfold Grid.IsChildren at are
  unfold sheetOf
  cases rule : g.rule with
  | none =>
    rw [rule] at are
    rw [← List.append_nil children]
    refine lays_section g (List.Subset.refl _) are rfl ?_
    simpa [Sheet.addRows] using pure_ _
  | some above =>
    rw [rule] at are
    obtain ⟨head, body, rfl, head_are, body_are⟩ := are
    have below : Lays columns (neighbours ctx body)
        ⟨(g.rows.take above).map rowCells, some [], [], none⟩
        ⟨(g.rows.take above).map rowCells, some ((g.rows.drop above).map rowCells), [], none⟩ := by
      rw [← List.append_nil body]
      refine lays_section g (List.drop_subset _ _) body_are rfl ?_
      simpa [Sheet.addRows] using pure_ _
    refine lays_section g (List.take_subset _ _) head_are rfl (lays_rule ?_)
    simpa [Sheet.addRows, Sheet.midrule, Sheet.endRow, Sheet.closeCell] using below

theorem countColumns_letters : countColumns g.letters = g.columns := by
  rw [countColumns, Grid.letters, String.toList_ofList]
  induction g.columns with
  | zero => rw [List.replicate_zero, countIn]
  | succ n ih =>
    rw [List.replicate_succ, countIn, if_pos (by decide), ih, Nat.add_comm]

/-- A table at the front of a text writes the sheet that is laid out inside it. -/
theorem table_of_lays {node : Node} {rest : List Node} {inside : Inside node rest} {spec : String}
    {sheet : Sheet} {s : State} (declared : columnSpec node = .ok spec)
    (laid : Lays (countColumns spec)
      (inside node.children (Node.shrinks_children node rest)) .empty sheet)
    (flat : s.inParagraph = false) (first : s.out = "") (outside : s.betweenCells = false) :
    table ctx inside s =
      (.ok (), { s with out := sheet.endRow.print (countColumns spec) }) := by
  have opening : (s.startTable (countColumns spec)).out = (Layout.start (countColumns spec)).1 := by
    simp only [State.startTable, State.write, first, String.empty_append]
  have describes := Sheet.describes_start (countColumns spec)
  rw [← opening] at describes
  obtain ⟨out, t, described, ran⟩ := laid _ _ rfl describes
  have closed : s.closeParagraph ctx.flavor = s := by simp [State.closeParagraph, flat]
  have walked : table ctx inside s =
      within (·.startTable (countColumns spec)) (fun s t => t.finishTable s.table)
        (inside node.children (Node.shrinks_children node rest)) s := by
    rw [table, declared]
    exact congrArg (within (·.startTable (countColumns spec)) (fun s t => t.finishTable s.table)
      (inside node.children (Node.shrinks_children node rest))) closed
  rw [walked, within, ran, ← described.finish]
  simp [State.startTable, State.finishTable, State.write, outside]

/-- A chapter that is nothing but the table of a grid. -/
theorem render_table {children : List Node} (are : g.IsChildren children) (ctx : Context)
    (disk : Disk) :
    render ctx disk [.environment "tabular" [columnArg g.letters] children] =
      (.ok ⟨(sheetOf g).print g.columns, .empty⟩, disk) := by
  have role : Role.ofName "tabular" = .table := by decide
  have declared : columnSpec (.environment "tabular" [columnArg g.letters] children) =
      .ok g.letters := rfl
  have laid : Lays (countColumns g.letters) (deeper (neighbours ctx children)) .empty (sheetOf g) :=
    (lays_children g are).deeper
  have left : remaining (.environment "tabular" [columnArg g.letters] children) [] = [] := by
    simp only [remaining, roleOf?, role]
  have walked : nodes ctx [.environment "tabular" [columnArg g.letters] children]
      (.start ctx disk) = (.ok (), { State.start ctx disk with
        out := (sheetOf g).print (countColumns g.letters) }) := by
    rw [nodes, deeper, within, neighbours_cons, left, neighbours_nil]
    simp only [visit, role, perform]
    rw [bind_, table_of_lays declared laid rfl rfl rfl]
    rfl
  rw [render_eq, walked, countColumns_letters]
  simp [State.finish, State.closeParagraph, State.finishTable, State.start, State.disk, Desk.alone]

/-- The source of a grid is rendered as a table with a cell for each column in each row, in the
order of the grid. The rows above the rule, all of them when there is none, make the head. -/
theorem render_source (kept : List String) (ctx : Context) (disk : Disk) :
    Verbs.preprocess kept g.source = (g.source, kept) ∧
    ∃ nodes shown, Node.parse g.source = .ok nodes ∧
      List.Forall₂ (RowShows g.columns) g.rows shown ∧
      render ctx disk nodes = (.ok ⟨Sheet.print g.columns
        ⟨shown.take (g.rule.getD shown.length), g.rule.map shown.drop, [], none⟩, .empty⟩, disk) := by
  obtain ⟨children, are, parsed⟩ := parse_source g
  refine ⟨Verbs.preprocess_unspanned (unspanned_source g) kept, _,
    g.rows.map fun row => filled g.columns (rowCells row), parsed, ?_, ?_⟩
  · rw [List.forall₂_map_right_iff, List.forall₂_same]
    exact fun row member => rowShows_filled (g.row_le row member) g.columns_lt
  · rw [render_table g are]
    have sheet : (sheetOf g).print g.columns = _ :=
      (print_filled (sheetOf g).head (sheetOf g).body g.columns_lt).symm
    rw [sheet]
    cases rule : g.rule with
    | none => simp [sheetOf, rule, List.take_of_length_le, Function.comp_def]
    | some above => simp [sheetOf, rule, List.map_take, List.map_drop, Function.comp_def]

end Grid

/-- A row with a blank cell and a cell in brackets above the rule, and a short row below it. -/
theorem render_source_of_ruled :
    let ctx : Context := ⟨.empty, .empty, [], "", ⟨"", "", 0, 0, .offline⟩, .html, 1⟩
    let source := "\\begin\x7btabular\x7d\x7blll\x7d\na &  & [c] \\\\\n" ++
      "\\midrule\nd \\\\\n\\end\x7btabular\x7d"
    Verbs.preprocess [] source = (source, []) ∧
    ∃ nodes shown, Node.parse source = .ok nodes ∧
      List.Forall₂ (RowShows 3) [["a", "", "[c]"], ["d"]] shown ∧
      render ctx .empty nodes =
        (.ok ⟨Sheet.print 3 ⟨shown.take 1, some (shown.drop 1), [], none⟩, .empty⟩, .empty) := by
  intro ctx source
  let g : Grid := ⟨3, [["a", "", "[c]"], ["d"]], some 1, by decide, by decide, by decide,
    by decide, by decide +kernel, by decide, by decide⟩
  have written : g.source = source := by decide +kernel
  rw [← written]
  exact render_source g [] ctx .empty

end Quire.Walk
