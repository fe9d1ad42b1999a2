import Quire.Proofs.Walk.Course
import Quire.Proofs.Walk.Grid

/-! Tables for two targets. What a walk writes for a table of texts and fixed commands is a
template: text that every target shares, with gaps for the texts that a target has of its own. The
table alone decides the template, whatever stands around it. -/
namespace Quire.Walk

open Table

/-- A part of a template: a text for every target, or one for each. -/
inductive Piece
  | shared (text : String)
  | fixed (html quarto : String)

def Piece.text : Target → Piece → String
  | _, shared text => text
  | .html, fixed html _ => html
  | .quarto, fixed _ quarto => quarto

def fill (target : Target) : List Piece → String
  | [] => ""
  | piece :: pieces => piece.text target ++ fill target pieces

theorem fill_append (target : Target) (first second : List Piece) :
    fill target (first ++ second) = fill target first ++ fill target second := by
  induction first with
  | nil => simp [fill]
  | cons piece first ih => rw [List.cons_append, fill, fill, ih, String.append_assoc]

def AllFixed (P : String → String → Prop) (pieces : List Piece) : Prop :=
  ∀ html quarto, .fixed html quarto ∈ pieces → P html quarto

variable {P : String → String → Prop} {pieces : List Piece}

theorem allFixed_shared (text : String) : AllFixed P [.shared text] := by
  rintro html quarto member
  cases List.mem_singleton.mp member

theorem AllFixed.append {more : List Piece} (first : AllFixed P pieces)
    (second : AllFixed P more) : AllFixed P (pieces ++ more) := by
  intro html quarto member
  rcases List.mem_append.mp member with front | back
  · exact first html quarto front
  · exact second html quarto back

theorem fill_eq_of_allFixed (all : AllFixed (· = ·) pieces) (target target' : Target) :
    fill target pieces = fill target' pieces := by
  induction pieces with
  | nil => rfl
  | cons piece pieces ih =>
    have behind := ih fun html quarto member => all html quarto (List.mem_cons_of_mem _ member)
    have first : piece.text target = piece.text target' := by
      cases piece with
      | shared text => rfl
      | fixed html quarto =>
        obtain rfl := all html quarto List.mem_cons_self
        cases target <;> cases target' <;> rfl
    rw [fill, fill, first, behind]

/-- A step inside a table that appends a template and does nothing else. The layout in front of the
step decides the template, the layout behind it, and whether the step fails. -/
def Templated (P : String → String → Prop) (step : Target → Walk Unit) : Prop :=
  ∀ layout, ∃ result pieces layout', AllFixed P pieces ∧ ∀ target (s : State),
    s.table = some layout → ∃ strays, step target s =
      (result, { s with out := s.out ++ fill target pieces, table := some layout', strays })

namespace Templated

variable {step next : Target → Walk Unit}

theorem pure : Templated P fun _ => pure_ () := by
  intro layout
  refine ⟨.ok (), [], layout, nofun, fun target s open_ => ⟨s.strays, ?_⟩⟩
  rw [fill, String.append_empty, ← open_]
  rfl

theorem fail (fault : Fault) : Templated P fun _ => Walk.fail fault := by
  intro layout
  refine ⟨.error fault, [], layout, nofun, fun target s open_ => ⟨s.strays, ?_⟩⟩
  rw [fill, String.append_empty, ← open_]
  rfl

theorem bind (first : Templated P step) (second : Templated P next) :
    Templated P fun target => bind_ (step target) fun _ => next target := by
  intro layout
  obtain ⟨result, pieces, layout', all, ran⟩ := first layout
  cases result with
  | error fault =>
    refine ⟨.error fault, pieces, layout', all, fun target s open_ => ?_⟩
    obtain ⟨strays, ran⟩ := ran target s open_
    exact ⟨strays, by simp only [bind_, ran]⟩
  | ok =>
    obtain ⟨result, more, layout'', all', ran'⟩ := second layout'
    refine ⟨result, pieces ++ more, layout'', all.append all', fun target s open_ => ?_⟩
    obtain ⟨strays, ran⟩ := ran target s open_
    obtain ⟨strays', behind⟩ := ran' target
      { s with out := s.out ++ fill target pieces, table := some layout', strays } rfl
    exact ⟨strays', by simp only [bind_, ran, behind, fill_append, String.append_assoc]⟩

theorem rendering {α : Type} {value : Except RenderFault α} {next : α → Target → Walk Unit}
    (behind : ∀ a, Templated P (next a)) :
    Templated P fun target => bind_ (Walk.rendering value) fun a => next a target := by
  cases value with
  | error e => exact fail (.render e)
  | ok a => exact behind a

theorem deeper (inner : Templated P step) : Templated P fun target => deeper (step target) := by
  intro layout
  obtain ⟨result, pieces, layout', all, ran⟩ := inner layout
  refine ⟨result, pieces, layout', all, fun target s open_ => ?_⟩
  obtain ⟨strays, ran⟩ := ran target { s with depth := s.depth + 1 } open_
  refine ⟨strays, ?_⟩
  simp only [Walk.deeper, within, ran]
  rfl

theorem inlined (inner : Templated P step) : Templated P fun target => inlined (step target) := by
  intro layout
  obtain ⟨result, pieces, layout', all, ran⟩ := inner layout
  refine ⟨result, pieces, layout', all, fun target s open_ => ?_⟩
  obtain ⟨strays, ran⟩ := ran target { s with inline := true } open_
  exact ⟨strays, by simp only [Walk.inlined, within, ran]⟩

theorem lay (act : Layout → String × Layout) :
    Templated P fun _ => modify (·.layTable act) := by
  intro layout
  refine ⟨.ok (), [.shared (act layout).1], (act layout).2, allFixed_shared _,
    fun target s open_ => ⟨s.strays, ?_⟩⟩
  simp only [modify, Lays.layTable_eq open_, fill, Piece.text, String.append_empty]

theorem write (piece : Piece) (all : AllFixed P [piece]) :
    Templated P fun target => Walk.write (piece.text target) := by
  intro layout
  refine ⟨.ok (), [piece], layout, all, fun target s open_ =>
    ⟨(s.write (piece.text target)).strays, ?_⟩⟩
  rw [fill, fill, String.append_empty, ← open_]
  rfl

theorem openParagraph (ctx : Context) :
    Templated P fun target => Walk.openParagraph { ctx with target } := by
  intro layout
  obtain ⟨result, pieces, layout', all, ran⟩ := lay (P := P) (·.ensureCell) layout
  refine ⟨result, pieces, layout', all, fun target s open_ => ?_⟩
  have inTable : s.table.isSome = true := by rw [open_]; rfl
  obtain ⟨strays, ran⟩ := ran target s open_
  refine ⟨strays, ?_⟩
  rw [← ran]
  exact congrArg (Prod.mk (Except.ok ())) (if_pos inTable)

theorem fixed (ctx : Context) {html quarto : String} (related : P html quarto) :
    Templated P fun target => Walk.fixed { ctx with target } html quarto := by
  have all : AllFixed P [.fixed html quarto] := by
    rintro html' quarto' member
    cases List.mem_singleton.mp member
    exact related
  have written (target : Target) : Walk.fixed { ctx with target } html quarto =
      bind_ (Walk.openParagraph { ctx with target }) fun _ =>
        Walk.write ((Piece.fixed html quarto).text target) := by
    cases target <;> rfl
  simp only [written]
  exact (openParagraph ctx).bind (write _ all)

theorem writeCell (text : String) : Templated P fun _ => modify (writeCell text) := by
  intro layout
  have part : Templated P fun _ => if Text.allBlank text && !layout.cellOpen then pure_ ()
      else bind_ (modify (·.layTable (·.ensureCell))) fun _ => Walk.write text := by
    split
    · exact pure
    · exact (lay _).bind (write (.shared text) (allFixed_shared text))
  obtain ⟨result, pieces, layout', all, ran⟩ := part layout
  refine ⟨result, pieces, layout', all, fun target s open_ => ?_⟩
  obtain ⟨strays, ran⟩ := ran target s open_
  refine ⟨strays, ?_⟩
  rw [← ran]
  simp only [modify, Walk.writeCell, open_, Option.map_some, Option.getD_some]
  split <;> rfl

theorem cellToken (token : CellToken) : Templated P fun _ => cellToken token := by
  cases token with
  | text raw => exact rendering fun text => writeCell text
  | column => exact lay _
  | row => exact lay _

theorem forM (tokens : List CellToken) : Templated P fun _ => tokens.forM Walk.cellToken := by
  induction tokens with
  | nil => exact pure
  | cons token tokens ih => exact (cellToken token).bind ih

theorem text (ctx : Context) (raw : String) :
    Templated P fun target => text { ctx with target } raw := by
  intro layout
  obtain ⟨result, pieces, layout', all, ran⟩ := forM (P := P) (splitCells raw) layout
  refine ⟨result, pieces, layout', all, fun target s open_ => ?_⟩
  have inTable : s.table.isSome = true := by rw [open_]; rfl
  obtain ⟨strays, ran⟩ := ran target s open_
  exact ⟨strays, ran ▸ congrFun (if_pos inTable) s⟩

end Templated

/-- Text, or a command that stands for a fixed text or for none. -/
inductive InCell (P : String → String → Prop) : Node → Prop
  | text (content : String) : InCell P (.text content)
  | fixed {node : Node} {html quarto : String} (role : roleOf? node = some (.fixed html quarto))
    (related : P html quarto) : InCell P node
  | ignored {node : Node} (role : roleOf? node = some .ignored) : InCell P node

/-- What makes up a table: contents of cells, rules, and cells over several columns. -/
inductive InSheet (P : String → String → Prop) : Node → Prop
  | cell {node : Node} (inCell : InCell P node) : InSheet P node
  | rule {node : Node} (role : roleOf? node = some .rule) : InSheet P node
  | wideCell {node : Node} (role : roleOf? node = some .wideCell)
    (inside : ∀ inner ∈ node.requiredNodes 2, InCell P inner) : InSheet P node

section Nodes

variable {ctx : Context} {node : Node} {rest : List Node} {role : Role}

theorem remaining_fixed {html quarto : String} (role : roleOf? node = some (.fixed html quarto)) :
    remaining node rest = dropSpaces rest := by
  cases node with
  | text | group | math => cases role
  | command | environment => simp only [remaining, role]

theorem remaining_same (role_eq : roleOf? node = some role)
    (one : role = .ignored ∨ role = .rule ∨ role = .wideCell) : remaining node rest = rest := by
  cases node with
  | text | group | math => cases role_eq
  | command | environment => rcases one with rfl | rfl | rfl <;> simp only [remaining, role_eq]

theorem forall_dropSpaces {Q : Node → Prop} (texts : ∀ content, Q (.text content))
    (all : ∀ next ∈ rest, Q next) : ∀ next ∈ dropSpaces rest, Q next := by
  unfold dropSpaces
  split
  next content rest =>
    have behind := (List.forall_mem_cons.mp all).2
    dsimp only
    split
    · exact behind
    · exact List.forall_mem_cons.mpr ⟨texts _, behind⟩
  next => exact all

/-- What a part of a table leaves over is made up as its neighbours are. -/
theorem forall_remaining {Q : Node → Prop} (texts : ∀ content, Q (.text content))
    (part : InSheet P node) (all : ∀ next ∈ rest, Q next) :
    ∀ next ∈ remaining node rest, Q next := by
  cases part with
  | cell inCell =>
    cases inCell with
    | text => exact fun next member => all next ((List.dropWhile_suffix _).subset member)
    | fixed role =>
      rw [remaining_fixed role]
      exact forall_dropSpaces texts all
    | ignored role => rwa [remaining_same role (by simp)]
  | rule role => rwa [remaining_same role (by simp)]
  | wideCell role => rwa [remaining_same role (by simp)]

/-- Each part of a table writes a template, given that the contents of a wide cell do. -/
theorem templated_visit {inside : Target → Inside node rest} (part : InSheet P node)
    (below : ∀ nodes smaller, (∀ inner ∈ nodes, InCell P inner) →
      Templated P fun target => inside target nodes smaller) :
    Templated P fun target => visit { ctx with target } node rest (inside target) := by
  cases part with
  | cell inCell =>
    cases inCell with
    | text content => exact .text ctx _
    | fixed role related =>
      simp only [visit_of_role role]
      exact .fixed ctx related
    | ignored role =>
      simp only [visit_of_role role]
      exact .pure
  | rule role =>
    simp only [visit_of_role role]
    exact .lay _
  | wideCell role cells =>
    simp only [visit_of_role role]
    exact .rendering fun span => (Templated.lay _).bind (below _ _ cells).inlined

theorem templated_neighbours (ctx : Context) {nodes : List Node}
    (all : ∀ node ∈ nodes, InSheet P node) :
    Templated P fun target => neighbours { ctx with target } nodes := by
  induction nodes using Node.shrinks_wf.induction with
  | _ nodes ih =>
    cases nodes with
    | nil =>
      simp only [neighbours_nil]
      exact .pure
    | cons node rest =>
      obtain ⟨first, behind⟩ := List.forall_mem_cons.mp all
      simp only [neighbours_cons]
      refine .bind (templated_visit first fun inner smaller cells => ?_) ?_
      · exact (ih inner smaller fun next member => .cell (cells next member)).deeper
      · exact ih _ (shrinks_remaining node rest) (forall_remaining
          (fun content => .cell (.text content)) first behind)

/-- What stands inside a table is put between the marks of the table. -/
theorem table_of_templated {inside : Target → Inside node rest} {spec : String}
    (declared : columnSpec node = .ok spec)
    (templated : Templated P fun target =>
      inside target node.children (Node.shrinks_children node rest)) :
    ∃ result pieces, AllFixed P pieces ∧ ∀ target (s : State),
      let closed := s.closeParagraph target.flavor
      ∃ strays, table { ctx with target } (inside target) s =
        (result, { closed with out := closed.out ++ fill target pieces, strays }) := by
  obtain ⟨result, pieces, layout, all, ran⟩ := templated (Layout.start (countColumns spec)).2
  refine ⟨result, .shared (Layout.start (countColumns spec)).1 :: pieces ++
    [.shared layout.finish], ?_, fun target s => ?_⟩
  · exact ((allFixed_shared _).append all).append (allFixed_shared _)
  · intro closed
    have walked : table { ctx with target } (inside target) s =
        within (·.startTable (countColumns spec)) (fun s t => t.finishTable s.table)
          (inside target node.children (Node.shrinks_children node rest)) closed := by
      rw [table, declared]
      rfl
    obtain ⟨strays, laid⟩ := ran target (closed.startTable (countColumns spec)) rfl
    refine ⟨strays.tail, ?_⟩
    dsimp only at laid
    simp only [walked, within, laid]
    simp only [State.finishTable, State.startTable, State.write, List.cons_append, fill,
      fill_append, Piece.text, String.append_assoc, String.append_empty]

/-- A table of texts, fixed commands, rules and wide cells is the same template for every target,
wherever it stands. The targets differ in the texts of the fixed commands and in nothing else. So
the markup of the table is the same for all targets when each fixed command has one text for all. -/
theorem template_of_table (ctx : Context) {node : Node} (role_eq : roleOf? node = some .table)
    (made : ∀ part ∈ node.children, InSheet P part) :
    ∃ result pieces, AllFixed P pieces ∧
      (∀ target rest (s : State), (meet { ctx with target } node rest s).1 = result ∧
        (result = .ok () →
          let closed := s.closeParagraph target.flavor
          ∃ strays, (meet { ctx with target } node rest s).2 =
            { closed with out := closed.out ++ fill target pieces, strays })) ∧
      ((∀ html quarto, P html quarto → html = quarto) →
        fill .html pieces = fill .quarto pieces) := by
  have same {pieces : List Piece} (all : AllFixed P pieces)
      (agree : ∀ html quarto, P html quarto → html = quarto) :
      fill .html pieces = fill .quarto pieces :=
    fill_eq_of_allFixed (fun html quarto member => agree _ _ (all html quarto member)) _ _
  cases declared : columnSpec node with
  | error e =>
    refine ⟨.error (.render e), [], nofun, fun target rest s => ⟨?_, nofun⟩, same nofun⟩
    rw [meet, visit_of_role role_eq, perform, table, declared]
    rfl
  | ok spec =>
    have templated : Templated P fun target => nodes { ctx with target } node.children :=
      (templated_neighbours ctx made).deeper
    obtain ⟨result, pieces, all, ran⟩ := @table_of_templated P ctx node []
      (fun target => below { ctx with target } node []) spec declared templated
    refine ⟨result, pieces, all, fun target rest s => ?_, same all⟩
    have met : meet { ctx with target } node rest s =
        table { ctx with target } (below { ctx with target } node []) s := by
      rw [meet, visit_of_role role_eq]
      rfl
    obtain ⟨strays, ran⟩ := ran target s
    rw [met, ran]
    exact ⟨rfl, fun _ => ⟨strays, rfl⟩⟩

end Nodes

theorem template_of_table_of_agreeing :
    let ctx : Context := ⟨.empty, .empty, [], "", ⟨"", "", 0, 0, .offline⟩, .html, 1⟩
    let wide := Node.command "multicolumn" [.mk .required [.text "2"] "2",
      .mk .required [.text "c"] "c", .mk .required [.text "<x>", .command "textbar" []] ""]
    let node := Node.environment "tabular" [.mk .required [.text "ll"] "ll"]
      [.text "a < b & ", .command "LaTeX" [], .text " \\\\ ", .command "midrule" [], wide]
    let start := State.start ctx .empty
    roleOf? node = some .table ∧ (∀ part ∈ node.children, InSheet (· = ·) part) ∧
      ∃ markup, ∀ target, (meet { ctx with target } node [] start).1 = .ok () ∧
        (meet { ctx with target } node [] start).2.out = markup := by
  intro ctx wide node start
  have role_eq : roleOf? node = some .table := by decide +kernel
  have tex : roleOf? (.command "LaTeX" []) = some (.fixed "LaTeX" "LaTeX") := by decide +kernel
  have bar : roleOf? (.command "textbar" []) = some (.fixed "|" "|") := by decide +kernel
  have made : ∀ part ∈ node.children, InSheet (· = ·) part := by
    intro part member
    simp only [node, Node.children, List.mem_cons, List.not_mem_nil, or_false] at member
    rcases member with rfl | rfl | rfl | rfl | rfl
    · exact .cell (.text _)
    · exact .cell (.fixed tex rfl)
    · exact .cell (.text _)
    · exact .rule (by decide +kernel)
    · refine .wideCell (by decide +kernel) fun inner inside => ?_
      rcases List.mem_pair.mp (show inner ∈ [.text "<x>", .command "textbar" []] from inside) with
        rfl | rfl
      · exact .text _
      · exact .fixed bar rfl
  obtain ⟨result, pieces, -, ran, same⟩ := template_of_table ctx role_eq made
  have agree := same fun html quarto eq => eq
  have ok : result = .ok () := by
    have answers : (meet { ctx with target := .html } node [] start).1.isOk = true := by
      decide +kernel
    rw [(ran .html [] start).1] at answers
    cases result with
    | error => cases answers
    | ok => rfl
  refine ⟨role_eq, made, fill .html pieces, fun target => ?_⟩
  obtain ⟨answered, out⟩ := ran target [] start
  obtain ⟨strays, out⟩ := out ok
  refine ⟨answered.trans ok, ?_⟩
  rw [out]
  cases target with
  | html => exact String.empty_append
  | quarto => exact String.empty_append.trans agree.symm

/-- A fixed command writes the text of its target into a cell, which is markup where it should be
shown. -/
theorem textless_in_cell :
    let ctx (target : Target) : Context := ⟨.empty, .empty, [], "", ⟨"", "", 0, 0, .offline⟩, target, 1⟩
    let source := "\\begin\x7btabular\x7d\x7bl\x7d\\textless\\end\x7btabular\x7d"
    let body (target : Target) := (Node.parse source).toOption.bind fun chapter =>
      (render (ctx target) .empty chapter).1.toOption.map (·.body)
    body .html = some ("<table class='table'>\n<thead>\n  <tr>\n    <th>&lt;</th>\n  </tr>\n" ++
        "</thead>\n</table>\n") ∧
      body .quarto = some ("<table class='table'>\n<thead>\n  <tr>\n    <th><</th>\n  </tr>\n" ++
        "</thead>\n</table>\n") := by
  intro ctx source body
  exact ⟨by decide +kernel, by decide +kernel⟩

end Quire.Walk
