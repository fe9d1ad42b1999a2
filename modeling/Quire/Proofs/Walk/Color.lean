import Quire.Asset.Picture
import Quire.Proofs.Walk.Ahead
import Quire.Proofs.Walk.Cell

/-! Colors. A color takes all of the nodes behind it, with the separators and rules among them, and
walks them where there is no table. Main statement: `color_in_table`, a table ends where a color
stands in it, but for one text in a cell. -/
namespace Quire

namespace Walk

open Table (Layout Operation)

variable {ctx : Context} {node paint : Node} {front rest siblings : List Node} {s u : State}

/-- A table that is walked, from its start to its end. -/
theorem table_eq_ok (table : roleOf? node = some .table)
    (ran : meet ctx node siblings s = (.ok (), u)) :
    ∃ spec t, columnSpec node = .ok spec ∧
      nodes ctx node.children
        ((s.closeParagraph ctx.flavor).startTable (Table.countColumns spec)) = (.ok (), t) ∧
      u = t.finishTable (s.closeParagraph ctx.flavor).table := by
  rw [meet, visit_of_role table] at ran
  obtain ⟨spec, s', got, ran₁⟩ := bind_eq_ok ran
  obtain ⟨declared, rfl⟩ := rendering_eq_ok got
  obtain ⟨⟨⟩, _, ⟨⟩, ran₂⟩ := bind_eq_ok ran₁
  obtain ⟨t, walked, rfl⟩ := within_eq_ok ran₂
  exact ⟨spec, t, declared, walked, rfl⟩

/-- What a colored text does to the table around it. -/
def colorOperations (flavor : Flavor) (color text : String) : List Operation :=
  if Text.allBlank text then [] else [.ensureCell, .text (flavor.span color text)]

/-- A colored text is content of one cell: of the open one, or of one more in the row. -/
theorem run_colorOperations (layout : Layout) (flavor : Flavor) (color text : String) :
    let t := (layout.run (colorOperations flavor color text)).2
    t.inHead = layout.inHead ∧ t.rows = layout.rows ∧
      t.row = if Text.allBlank text || layout.cellOpen then layout.row
        else some ((layout.row.getD 0 + 1) % Layout.wordSize) := by
  cases blank : Text.allBlank text <;> cases opened : layout.cellOpen <;>
    simp [colorOperations, blank, Layout.run, Layout.perform, Layout.ensureCell, Layout.openCell,
      Layout.closeCell, opened]

theorem colored_in_table {layout : Layout} {color text : String} (table : s.table = some layout)
    (ran : colored ctx color text s = (.ok (), u)) :
    let painted := layout.run (colorOperations ctx.flavor color text)
    u.out = s.out ++ painted.1 ∧ u.table = some painted.2 := by
  intro painted
  by_cases blank : Text.allBlank text
  · have nothing : painted = ("", layout) := by
      simp only [painted, colorOperations, blank, if_true, Layout.run]
    rw [colored, if_pos blank] at ran
    cases ran
    exact ⟨by rw [nothing, String.append_empty], by rw [nothing, table]⟩
  · have content : painted =
        (layout.ensureCell.1 ++ ctx.flavor.span color text, layout.ensureCell.2) := by
      simp [painted, colorOperations, blank, Layout.run, Layout.perform]
    rw [colored, if_neg blank] at ran
    obtain ⟨⟨⟩, _, ⟨⟩, ran⟩ := bind_eq_ok ran
    cases ran
    simp [content, State.openParagraph, State.layTable, State.write, table, String.append_assoc]

/-- A walk that comes to a color is done with it: all that comes behind is walked on its own. -/
theorem neighbours_to_color (color : roleOf? paint = some .color) (uncolored : Uncolored front)
    (ran : neighbours ctx (front ++ paint :: rest) s = (.ok (), u)) :
    ∃ shown f inner, paint.onlyArg = .ok shown ∧ neighbours ctx front s = (.ok (), f) ∧
      nodes ctx rest (f.child ctx) = (.ok (), inner) ∧
      colored ctx shown.text inner.out (f.merge inner) = (.ok (), u) := by
  have leaves : remaining paint rest = [] := by
    obtain ⟨_, _, rfl⟩ | ⟨_, _, _, rfl⟩ := element_of_role color <;> simp only [remaining, color]
  have perform_eq : meet ctx paint rest = Walk.color ctx (below ctx paint rest) :=
    visit_of_role color _
  rw [neighbours_append uncolored color (by decide), neighbours_cons_meet, leaves, neighbours_nil,
    perform_eq] at ran
  obtain ⟨⟨⟩, f, reached, ran₁⟩ := bind_eq_ok ran
  obtain ⟨⟨⟩, _, ran₂, ⟨⟩⟩ := bind_eq_ok ran₁
  obtain ⟨shown, f', got, ran₃⟩ := bind_eq_ok ran₂
  obtain ⟨only, rfl⟩ := rendering_eq_ok got
  obtain ⟨text, _, taken, ran₄⟩ := bind_eq_ok ran₃
  obtain ⟨inner, walked, rfl, rfl⟩ := asText_eq_ok taken
  exact ⟨shown, f', inner, only, reached, walked, ran₄⟩

/-- A table with a color: what it lays out up to the color, then the colored text, then its end. -/
theorem table_to_color (table : roleOf? node = some .table)
    (inside : node.children = front ++ paint :: rest) (color : roleOf? paint = some .color)
    (uncolored : Uncolored front) (ran : meet ctx node siblings s = (.ok (), u)) :
    ∃ spec shown f layout inner, columnSpec node = .ok spec ∧ paint.onlyArg = .ok shown ∧
      nodes ctx front
        ((s.closeParagraph ctx.flavor).startTable (Table.countColumns spec)) = (.ok (), f) ∧
      f.table = some layout ∧
      nodes ctx rest (f.child ctx) = (.ok (), inner) ∧
      let painted := layout.run (colorOperations ctx.flavor shown.text inner.out)
      u.out = f.out ++ painted.1 ++ painted.2.finish := by
  obtain ⟨spec, t, declared, walked, rfl⟩ := table_eq_ok table ran
  rw [inside, nodes, deeper] at walked
  obtain ⟨v, ran', rfl⟩ := within_eq_ok walked
  obtain ⟨shown, f, inner, only, reached, behind, painted⟩ :=
    neighbours_to_color color uncolored ran'
  have front_ : nodes ctx front
      ((s.closeParagraph ctx.flavor).startTable (Table.countColumns spec)) =
        (.ok (), { f with depth := f.depth - 1 }) := by
    rw [nodes, deeper, within, reached]
  have inTable : f.table.isSome = true := by
    have frames := (course_nodes ctx front
      ((s.closeParagraph ctx.flavor).startTable (Table.countColumns spec))).frames
    rw [front_] at frames
    exact frames.inTable_eq
  obtain ⟨layout, open_⟩ := Option.isSome_iff_exists.mp inTable
  obtain ⟨out, table'⟩ := colored_in_table (s := f.merge inner) open_ painted
  refine ⟨spec, shown, _, layout, inner, declared, only, front_, open_, behind, ?_⟩
  simp only [State.finishTable, table', out]
  rfl

/-- Nothing behind a color makes a cell, a row or a rule of the table around it: the table ends
where the color stands, with the text that the nodes behind it write on their own in one cell. -/
theorem color_in_table (table : roleOf? node = some .table)
    (inside : node.children = front ++ paint :: rest) (color : roleOf? paint = some .color)
    (uncolored : Uncolored front) (ran : meet ctx node siblings s = (.ok (), u)) :
    ∃ spec shown f layout inner, columnSpec node = .ok spec ∧ paint.onlyArg = .ok shown ∧
      nodes ctx front
        ((s.closeParagraph ctx.flavor).startTable (Table.countColumns spec)) = (.ok (), f) ∧
      f.table = some layout ∧
      nodes ctx rest (f.child ctx) = (.ok (), inner) ∧
      let painted := layout.run (colorOperations ctx.flavor shown.text inner.out)
      u.out = f.out ++ painted.1 ++ painted.2.finish ∧
        painted.2.inHead = layout.inHead ∧ painted.2.rows = layout.rows ∧
        painted.2.row = if Text.allBlank inner.out || layout.cellOpen then layout.row
          else some ((layout.row.getD 0 + 1) % Layout.wordSize) := by
  obtain ⟨spec, shown, f, layout, inner, declared, only, reached, open_, behind, out⟩ :=
    table_to_color table inside color uncolored ran
  exact ⟨spec, shown, f, layout, inner, declared, only, reached, open_, behind, out,
    run_colorOperations layout ctx.flavor shown.text inner.out⟩

/-- A color below a rule: all of the body is in its cell. -/
theorem color_in_table_of_body :
    let ctx : Context := ⟨.empty, .empty, [], "", ⟨"", "", 0, 0, .offline⟩, .html, 1⟩
    let front : List Node := [.text "a & b \\\\ ", .command "midrule" []]
    let paint : Node := .command "color" [.mk .required [.text "red"] "red"]
    let rest : List Node := [.text "c & d \\\\ e & f"]
    let table : Node :=
      .environment "tabular" [.mk .required [.text "ll"] "ll"] (front ++ paint :: rest)
    let s := State.start ctx .empty
    (∃ (f : State) (layout : Layout) (inner : State),
      f.table = some layout ∧ nodes ctx rest (f.child ctx) = (.ok (), inner) ∧
      let painted := layout.run (colorOperations ctx.flavor "red" inner.out)
      (meet ctx table [] s).2.out = f.out ++ painted.1 ++ painted.2.finish ∧
        painted.2.rows = layout.rows) ∧
    (meet ctx table [] s).2.out = .join ["<table class='table'>\n<thead>\n",
      "  <tr>\n    <th>a </th>\n    <th> b </th>\n  </tr>\n</thead>\n<tbody>\n",
      "  <tr>\n    <td><span class='red'>c & d <br/> e & f</span></td>\n    <td></td>\n  </tr>\n",
      "</tbody>\n</table>\n"] := by
  intro ctx front paint rest table s
  have uncolored : Uncolored front := .cons (by decide) (.cons (by decide) .nil)
  have ran : meet ctx table [] s = (.ok (), (meet ctx table [] s).2) :=
    Prod.ext (by decide +kernel) rfl
  have only : paint.onlyArg = .ok (.mk .required [.text "red"] "red") := rfl
  have red : (Arg.mk .required [.text "red"] "red").text = "red" := by decide
  refine ⟨?_, by decide +kernel⟩
  obtain ⟨_, shown, f, layout, inner, -, shown_eq, -, open_, walked, out, -, rows, -⟩ :=
    color_in_table (by decide) rfl (by decide) uncolored ran
  obtain rfl := Except.ok.inj (only.symm.trans shown_eq)
  rw [red] at out rows
  exact ⟨f, layout, inner, open_, walked, out, rows⟩

/-- A color at the start of a table of two rows leaves it one row and one column of content. -/
theorem color_takes_rows :
    let ctx : Context := ⟨.empty, .empty, [], "", ⟨"", "", 0, 0, .offline⟩, .html, 1⟩
    let cells : Node := .text "a & b \\\\ c & d"
    let paint : Node := .command "color" [.mk .required [.text "red"] "red"]
    let table (children : List Node) : Node :=
      .environment "tabular" [.mk .required [.text "ll"] "ll"] children
    let body (children : List Node) : Option String :=
      (render ctx .empty [table children]).1.toOption.map (·.body)
    let plain : Table.Sheet := ⟨[[⟨1, "a "⟩, ⟨1, " b "⟩], [⟨1, " c "⟩, ⟨1, " d"⟩]], none, [], none⟩
    let span := "<span class='red'>a & b <br/> c & d</span>"
    let painted : Table.Sheet := ⟨[[⟨1, span⟩]], none, [], none⟩
    body [cells] = some (plain.print 2) ∧ body [paint, cells] = some (painted.print 2) ∧
      plain.rows.length = 2 ∧ painted.rows.length = 1 := by
  refine ⟨?_, ?_, rfl, rfl⟩ <;> decide +kernel

end Walk
end Quire
