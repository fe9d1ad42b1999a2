import Quire.Asset.Picture
import Quire.Proofs.Walk.Account
import Quire.Proofs.Walk.Flow
import Quire.Proofs.Walk.Whole

/-! Content in the cells of a table. Some nodes open a cell before they write, some write nothing,
and the rest write where they stand, so that they belong into an open cell. Main statement: with the
rest in open cells, a table writes nothing but its own tags outside of its cells. -/
namespace Quire

namespace Table.Layout

/-- Content goes into an open cell. What the table itself writes is allowed at any time. -/
def Holds (t : Layout) : Operation → Prop
  | .text _ => t.cellOpen = true
  | _ => True

def HoldsAll (t : Layout) : List Operation → Prop
  | [] => True
  | op :: ops => t.Holds op ∧ (t.perform op).2.HoldsAll ops

theorem run_append (t : Layout) (ops more : List Operation) :
    t.run (ops ++ more) =
      ((t.run ops).1 ++ ((t.run ops).2.run more).1, ((t.run ops).2.run more).2) := by
  induction ops generalizing t with
  | nil => simp [run]
  | cons op ops ih => simp [run, ih, String.append_assoc]

theorem HoldsAll.append {t : Layout} {ops more : List Operation} (first : t.HoldsAll ops)
    (second : (t.run ops).2.HoldsAll more) : t.HoldsAll (ops ++ more) := by
  induction ops generalizing t with
  | nil => exact second
  | cons op ops ih => exact ⟨first.1, ih first.2 second⟩

theorem cellOpen_ensureCell (t : Layout) : t.ensureCell.2.cellOpen = true := by
  unfold ensureCell
  split
  · assumption
  · rfl

end Table.Layout

namespace Walk

open Table (Layout Operation)

section Strays

theorem tail_strays_write (s : State) (text : String) :
    (s.write text).strays.tail = s.strays.tail := by
  cases between : s.betweenCells <;> simp [State.write, between, List.tail_modifyHead]

theorem strays_layTable (act : Layout → String × Layout) (s : State) :
    (s.layTable act).strays = s.strays := by
  unfold State.layTable
  split <;> rfl

theorem strays_finishTable (outer : Option Layout) (s : State) :
    (s.finishTable outer).strays = s.strays.tail := by
  unfold State.finishTable
  split <;> rfl

variable {flavor : Flavor}

theorem tail_strays_openParagraph (s : State) :
    (s.openParagraph flavor).strays.tail = s.strays.tail := by
  unfold State.openParagraph
  split
  · rw [strays_layTable]
  · split
    · exact tail_strays_write s _
    · rfl

theorem tail_strays_closeParagraph (s : State) :
    (s.closeParagraph flavor).strays.tail = s.strays.tail := by
  unfold State.closeParagraph
  split
  · exact tail_strays_write { s with out := Text.trimEnd s.out } _
  · rfl

/-- What is written goes to the innermost table, and that a table in it ends does not change this. -/
theorem Course.strays_tail {ctx : Context} {s t : State} (course : Course ctx s t) :
    t.strays.tail = s.strays.tail := by
  induction course with
  | refl | record | count | draw | note | files | merged | dropped => rfl
  | trans _ _ first second => exact second.trans first
  | write s text | mark s text => exact tail_strays_write s _
  | openParagraph s => exact tail_strays_openParagraph s
  | closeParagraph s => exact tail_strays_closeParagraph s
  | lay s op => rw [strays_layTable]
  | deeper _ ih | inlined _ ih | listed _ _ ih => exact ih
  | @blocked s t _ ih =>
    exact (tail_strays_closeParagraph t).trans (ih.trans (tail_strays_closeParagraph s))
  | @floated s t _ _ _ ih =>
    exact (tail_strays_write t _).trans (ih.trans (tail_strays_write s _))
  | @tabled s t columns _ ih =>
    rw [strays_finishTable, ih]
    exact tail_strays_write s _

end Strays

/-- In a table, where it may be known that a cell is open. -/
structure InTable (inCell : Bool) (s : State) : Prop where
  unopened : s.inParagraph = false
  layout : ∃ t, s.table = some t ∧ (inCell = true → t.cellOpen = true)

/-- All that was written is of the table itself or stands in an open cell of it. -/
def Laid (s u : State) : Prop :=
  u.strays = s.strays ∧ ∀ t, s.table = some t → ∃ ops, t.HoldsAll ops ∧
    u.out = s.out ++ (t.run ops).1 ∧ u.table = some (t.run ops).2

namespace Laid

variable {s t u : State}

theorem of_eq (out : u.out = s.out) (table : u.table = s.table) (strays : u.strays = s.strays) :
    Laid s u := by
  refine ⟨strays, fun t open_ => ?_⟩
  exact ⟨[], trivial, by rw [out]; simp [Layout.run], by rw [table, open_]; rfl⟩

theorem refl (s : State) : Laid s s := of_eq rfl rfl rfl

theorem trans (first : Laid s t) (second : Laid t u) : Laid s u := by
  refine ⟨second.1.trans first.1, fun layout open_ => ?_⟩
  obtain ⟨ops, holds, out, table⟩ := first.2 layout open_
  obtain ⟨more, holds', out', table'⟩ := second.2 _ table
  refine ⟨ops ++ more, holds.append holds', ?_, ?_⟩
  · rw [out', out, Layout.run_append, String.append_assoc]
  · rw [table', Layout.run_append]

end Laid

theorem State.Flows.of_inTable {inCell : Bool} {s : State} (inTable : InTable inCell s) :
    s.Flows := by
  obtain ⟨t, open_, -⟩ := inTable.layout
  exact ⟨inTable.unopened, .inr (by rw [open_]; rfl)⟩

namespace InTable

variable {inCell : Bool} {s u : State}

theorem forget (inTable : InTable inCell s) : InTable false s :=
  let ⟨t, open_, _⟩ := inTable.layout
  ⟨inTable.unopened, t, open_, nofun⟩

theorem of_known (inTable : InTable true s) : InTable inCell s :=
  let ⟨t, open_, cell⟩ := inTable.layout
  ⟨inTable.unopened, t, open_, fun _ => cell rfl⟩

/-- An operation of the table itself. -/
theorem lay (inTable : InTable inCell s) (op : Operation) {after : Bool}
    (own : ∀ t : Layout, t.Holds op)
    (opened : after = true → ∀ t : Layout, (t.perform op).2.cellOpen = true) :
    InTable after (s.layTable (·.perform op)) ∧ Laid s (s.layTable (·.perform op)) := by
  obtain ⟨t, open_, -⟩ := inTable.layout
  unfold State.layTable
  rw [open_]
  refine ⟨⟨inTable.unopened, _, rfl, fun known => opened known t⟩, rfl, fun t' open' => ?_⟩
  obtain rfl := Option.some.inj (open_.symm.trans open')
  exact ⟨[op], ⟨own t, trivial⟩, by simp [Layout.run], by simp [Layout.run]⟩

theorem strays_write (inTable : InTable true s) (text : String) :
    (s.write text).strays = s.strays := by
  obtain ⟨t, open_, cell⟩ := inTable.layout
  simp [State.write, State.betweenCells, open_, cell rfl]

theorem write (inTable : InTable true s) (text : String) :
    InTable true (s.write text) ∧ Laid s (s.write text) := by
  obtain ⟨t, open_, cell⟩ := inTable.layout
  refine ⟨⟨inTable.unopened, t, open_, cell⟩, inTable.strays_write text, fun t' open' => ?_⟩
  obtain rfl := Option.some.inj (open_.symm.trans open')
  exact ⟨[.text text], ⟨cell rfl, trivial⟩,
    by simp [Layout.run, Layout.perform, State.write], open_⟩

theorem openParagraph (inTable : InTable inCell s) (flavor : Flavor) :
    InTable true (s.openParagraph flavor) ∧ Laid s (s.openParagraph flavor) := by
  rw [(State.Flows.of_inTable inTable).openParagraph_eq]
  exact inTable.lay .ensureCell (fun _ => trivial) fun _ => Layout.cellOpen_ensureCell

end InTable

/-- What a step does from where it stands in a table: on its way nothing is written but what the
table lays out and content of open cells. -/
def Fills {α : Type} (before after : Bool) (step : Walk α) : Prop :=
  ∀ s a u, InTable before s → step s = (.ok a, u) → InTable after u ∧ Laid s u

structure Unseen (s u : State) : Prop where
  out_eq : u.out = s.out
  table_eq : u.table = s.table
  strays_eq : u.strays = s.strays
  inParagraph_eq : u.inParagraph = s.inParagraph

theorem Unseen.fills {inCell : Bool} {s u : State} (unseen : Unseen s u)
    (inTable : InTable inCell s) : InTable inCell u ∧ Laid s u := by
  refine ⟨⟨?_, ?_⟩, .of_eq unseen.out_eq unseen.table_eq unseen.strays_eq⟩
  · rw [unseen.inParagraph_eq]
    exact inTable.unopened
  · rw [unseen.table_eq]
    exact inTable.layout

namespace Fills

variable {ctx : Context} {α β : Type} {a b c : Bool} {step : Walk α} {next : α → Walk β}

theorem bind (first : Fills a b step) (second : ∀ x, Fills b c (next x)) :
    Fills a c (step >>= next) := by
  intro s y u inTable ran
  obtain ⟨x, t, answered, ran⟩ := bind_eq_ok ran
  obtain ⟨mid, laid⟩ := first s x t inTable answered
  obtain ⟨behind, laid'⟩ := second x t y u mid ran
  exact ⟨behind, laid.trans laid'⟩

theorem of_forget (fills : Fills false b step) : Fills a b step :=
  fun s x u inTable ran => fills s x u inTable.forget ran

theorem known (fills : Fills a true step) : Fills a b step :=
  fun s x u inTable ran =>
    let ⟨behind, laid⟩ := fills s x u inTable ran
    ⟨behind.of_known, laid⟩

theorem of_unseen (unseen : ∀ s, Unseen s (step s).2) : Fills a a step := by
  intro s x u inTable ran
  have same := unseen s
  rw [ran] at same
  exact same.fills inTable

theorem pure (x : α) : Fills a a (Pure.pure x : Walk α) := of_unseen fun _ => ⟨rfl, rfl, rfl, rfl⟩

theorem get : Fills a a Walk.get := of_unseen fun _ => ⟨rfl, rfl, rfl, rfl⟩

theorem fail (fault : Fault) : Fills a b (Walk.fail fault : Walk α) :=
  fun _ _ _ _ ran => nomatch ran

theorem ofExcept (result : Except Fault α) : Fills a a (Walk.ofExcept result) := by
  cases result with
  | ok x => exact .pure x
  | error fault => exact .fail fault

theorem rendering (result : Except RenderFault α) : Fills a a (Walk.rendering result) := by
  cases result with
  | ok x => exact .pure x
  | error fault => exact .fail _

theorem onDisk (job : Asset.Job α) : Fills a a (Walk.onDisk job) :=
  of_unseen fun _ => ⟨rfl, rfl, rfl, rfl⟩

theorem record (diagnostic : Diagnostic) : Fills a a (Walk.record diagnostic) :=
  of_unseen fun _ => ⟨rfl, rfl, rfl, rfl⟩

theorem modify {f : State → State} (fills : ∀ s, InTable a s → InTable b (f s) ∧ Laid s (f s)) :
    Fills a b (Walk.modify f) := by
  intro s x u inTable ran
  cases ran
  exact fills s inTable

theorem openParagraph : Fills a true (Walk.openParagraph ctx) :=
  .modify fun _ inTable => inTable.openParagraph ctx.flavor

theorem closeParagraph : Fills a a (Walk.closeParagraph ctx) :=
  .modify fun s inTable => by
    rw [(State.Flows.of_inTable inTable).closeParagraph_eq]
    exact ⟨inTable, .refl s⟩

theorem write (text : String) : Fills true true (Walk.write text) :=
  .modify fun _ inTable => inTable.write text

theorem ite {p : Prop} [Decidable p] {f g : Walk α} (left : Fills a b f) (right : Fills a b g) :
    Fills a b (if p then f else g) := by
  split
  · exact left
  · exact right

theorem forM {items : List β} {f : β → Walk Unit} (each : ∀ x ∈ items, Fills a a (f x)) :
    Fills a a (items.forM f) := by
  induction items with
  | nil => exact .pure ()
  | cons x items ih =>
    exact .bind (each x List.mem_cons_self) fun _ =>
      ih fun y member => each y (List.mem_cons_of_mem x member)

/-- A walk on its own writes nothing here. -/
theorem asText (step : Walk Unit) : Fills a a (Walk.asText ctx step) := by
  apply of_unseen
  intro s
  unfold Walk.asText
  split <;> exact ⟨rfl, rfl, rfl, rfl⟩

theorem within {d : Bool} {enter : State → State} {leave : State → State → State}
    (entered : ∀ s, InTable a s → InTable b (enter s) ∧ Laid s (enter s))
    (left : ∀ s u, InTable c u → InTable d (leave s u) ∧ Laid u (leave s u))
    (inner : Fills b c step) : Fills a d (Walk.within enter leave step) := by
  intro s x u inTable ran
  obtain ⟨t, answered, rfl⟩ := within_eq_ok ran
  obtain ⟨inTable', laid⟩ := entered s inTable
  obtain ⟨behind, laid'⟩ := inner _ x t inTable' answered
  obtain ⟨behind', laid''⟩ := left s t behind
  exact ⟨behind', laid.trans (laid'.trans laid'')⟩

theorem unseenWithin {enter : State → State} {leave : State → State → State}
    (entered : ∀ s, s.inParagraph = false → Unseen s (enter s))
    (left : ∀ s u, u.inParagraph = false → Unseen u (leave s u)) (inner : Fills a b step) :
    Fills a b (Walk.within enter leave step) :=
  within (fun s inTable => (entered s inTable.unopened).fills inTable)
    (fun s u inTable => (left s u inTable.unopened).fills inTable) inner

theorem deeper (inner : Fills a b step) : Fills a b (Walk.deeper step) :=
  unseenWithin (fun _ _ => ⟨rfl, rfl, rfl, rfl⟩) (fun _ _ _ => ⟨rfl, rfl, rfl, rfl⟩) inner

theorem inlined (inner : Fills a b step) : Fills a b (Walk.inlined step) :=
  unseenWithin (fun _ _ => ⟨rfl, rfl, rfl, rfl⟩) (fun _ _ _ => ⟨rfl, rfl, rfl, rfl⟩) inner

theorem blocked {flavor : Flavor} (inner : Fills a b step) :
    Fills a b (Walk.blocked flavor step) := by
  have closed (s : State) (unopened : s.inParagraph = false) : s.closeParagraph flavor = s := by
    rw [State.closeParagraph, unopened]
    rfl
  refine unseenWithin (fun s unopened => ?_) (fun s u unopened => ?_) inner
  · rw [closed s unopened]
    exact ⟨rfl, rfl, rfl, rfl⟩
  · rw [closed u unopened]
    exact ⟨rfl, rfl, rfl, rfl⟩

theorem floated {class_ : String} {label : Option String} {flavor : Flavor}
    (inner : Fills true true step) :
    Fills true true (Walk.within
      (fun s => { s.write (flavor.blockOpen class_) with floatLabel := label })
      (fun s t => { t.write flavor.blockClose with floatLabel := s.floatLabel }) step) := by
  refine within (fun s inTable => ?_) (fun s u inTable => ?_) inner
  · obtain ⟨⟨unopened, layout⟩, laid⟩ := inTable.write (flavor.blockOpen class_)
    exact ⟨⟨unopened, layout⟩, laid⟩
  · obtain ⟨⟨unopened, layout⟩, laid⟩ := inTable.write flavor.blockClose
    exact ⟨⟨unopened, layout⟩, laid⟩

/-- A table in a cell is content of the cell as a whole, whatever it is made of. -/
theorem tabled {columns : Nat} (course : ∀ s, Course ctx s (step s).2) :
    Fills true true
      (Walk.within (·.startTable columns) (fun s t => t.finishTable s.table) step) := by
  intro s x u inTable ran
  unfold Walk.within at ran
  obtain ⟨-, rfl⟩ := Prod.mk.inj ran
  have grown := (Course.tabled columns (course (s.startTable columns))).grows (.of_inTable inTable)
  obtain ⟨inner, eq⟩ := grown.out_prefix
  have table : ((step (s.startTable columns)).2.finishTable s.table).table = s.table := by
    unfold State.finishTable
    split <;> rfl
  have strays : ((step (s.startTable columns)).2.finishTable s.table).strays = s.strays := by
    rw [strays_finishTable, (course (s.startTable columns)).strays_tail]
    exact inTable.strays_write _
  obtain ⟨t, open_, cell⟩ := inTable.layout
  refine ⟨⟨grown.unopened, t, table.trans open_, cell⟩, strays, fun t' open' => ?_⟩
  obtain rfl := Option.some.inj (open_.symm.trans open')
  refine ⟨[.text (.ofList inner)], ⟨cell rfl, trivial⟩, ?_, table.trans open_⟩
  rw [← String.toList_inj, ← eq]
  simp [Layout.run, Layout.perform]

end Fills

section Handlers

variable {ctx : Context} {node : Node} {rest : List Node} {inside : Inside node rest}
  {a : Bool}

theorem fills_fixed (html quarto : String) : Fills a true (fixed ctx html quarto) :=
  .bind .openParagraph fun _ => .write _

theorem fills_writeCell (text : String) : Fills a a (modify (writeCell text)) := by
  refine .modify fun s inTable => ?_
  unfold writeCell
  split
  · exact ⟨inTable, .refl s⟩
  · obtain ⟨opened, laid⟩ := inTable.lay .ensureCell (fun _ => trivial)
      fun _ => Layout.cellOpen_ensureCell
    obtain ⟨written, laid'⟩ := opened.write text
    exact ⟨written.of_known, laid.trans laid'⟩

theorem fills_cellToken (token : Table.CellToken) : Fills a false (cellToken token) := by
  cases token with
  | text raw => exact .of_forget (.bind (.rendering _) fun text => fills_writeCell text)
  | column => exact .modify fun s inTable => inTable.lay .nextCell (fun _ => trivial) nofun
  | row => exact .modify fun s inTable => inTable.lay .endRow (fun _ => trivial) nofun

theorem text_of_inTable {s : State} (inTable : InTable a s) (raw : String) :
    text ctx raw s = tableText raw s := by
  obtain ⟨t, open_, -⟩ := inTable.layout
  exact congrFun (if_pos (by rw [open_]; rfl)) s

theorem fills_text (raw : String) : Fills a false (text ctx raw) := by
  intro s x u inTable ran
  rw [text_of_inTable inTable] at ran
  exact Fills.of_forget (.forM fun token _ => fills_cellToken token) s x u inTable ran

/-- A text without separators stays in its cell. -/
theorem fills_text_whole {raw : String} (whole : Table.Whole raw.toList) :
    Fills true true (text ctx raw) := by
  intro s x u inTable ran
  rw [text_of_inTable inTable] at ran
  refine Fills.forM (fun token member => ?_) s x u inTable ran
  obtain ⟨content, rfl⟩ := Table.isText_splitCells whole token member
  exact .bind (.rendering _) fun text => fills_writeCell text

theorem fills_math (display : Bool) (tex : String) : Fills a true (math ctx display tex) := by
  intro s x u inTable ran
  have same : math ctx display tex s = (do
      openParagraph ctx
      write (if isDots tex then "&hellip;" else ctx.flavor.inlineMath tex)) s := by
    obtain ⟨t, open_, -⟩ := inTable.layout
    exact congrFun (if_pos (by rw [open_]; rfl)) s
  rw [same] at ran
  exact Fills.bind .openParagraph (fun _ => .write _) s x u inTable ran

theorem fills_reference : Fills a true (reference ctx node) := by
  unfold reference
  refine .bind (.rendering _) fun arg => .bind .openParagraph fun _ => ?_
  split
  · exact .write _
  · exact .bind (.write _) fun _ => .record _

theorem fills_citation (style : CiteStyle) : Fills a true (citation ctx node style) := by
  unfold citation
  refine .bind (.rendering _) fun keys => .bind (.rendering _) fun entries => ?_
  exact .bind (.rendering _) fun notes => .bind .openParagraph fun _ => .write _

theorem fills_footnote : Fills a true (footnote ctx inside) := by
  unfold footnote
  refine .bind (.rendering _) fun _ => .bind (.asText _) fun body => ?_
  refine .bind (.of_unseen fun _ => ⟨rfl, rfl, rfl, rfl⟩) fun _ => .bind .openParagraph fun _ => ?_
  refine .modify fun s inTable => ?_
  obtain ⟨⟨unopened, layout⟩, laid⟩ :=
    inTable.write (ctx.flavor.footnoteMarker (s.footnoteBase + s.footnotes.length))
  exact ⟨⟨unopened, layout⟩, laid⟩

theorem fills_url : Fills a true (url ctx node) := by
  unfold url
  exact .bind (.rendering _) fun arg => .bind .openParagraph fun _ => .write _

theorem fills_href : Fills a true (href ctx inside) := by
  unfold href
  refine .bind (.rendering _) fun address => .bind (.asText _) fun shown => ?_
  exact .bind .openParagraph fun _ => .write _

theorem fills_verb (ctx : Context) (node : Node) : Fills a true (verb ctx node) := by
  unfold verb
  refine .bind (.rendering _) fun arg => ?_
  split
  · exact .fail _
  · exact .bind .openParagraph fun _ => .write _

theorem fills_graphics (ctx : Context) (node : Node) : Fills a true (graphics ctx node) := by
  unfold graphics
  refine .bind (.rendering _) fun arg => .bind .openParagraph fun _ => ?_
  split
  · exact .write _
  · exact .bind (.onDisk _) fun _ => .write _

theorem fills_drawing (ctx : Context) (node : Node) : Fills a true (drawing ctx node) := by
  unfold drawing
  refine .bind (.of_unseen fun _ => ⟨rfl, rfl, rfl, rfl⟩) fun _ => .bind .get fun s => ?_
  exact .bind (.onDisk _) fun _ => .bind .openParagraph fun _ => .write _

theorem fills_colored (color text : String) : Fills a a (colored ctx color text) :=
  .ite (.pure ()) (.known (.bind .openParagraph fun _ => .write _))

theorem fills_color : Fills a a (color ctx inside) := by
  unfold color
  exact .bind (.rendering _) fun _ => .bind (.asText _) fun _ => fills_colored _ _

theorem fills_coloredText : Fills a a (coloredText ctx inside) := by
  unfold coloredText
  exact .bind (.rendering _) fun _ => .bind (.asText _) fun _ => fills_colored _ _

theorem fills_rule : Fills a false rule :=
  .modify fun _ inTable => inTable.lay .midrule (fun _ => trivial) nofun

theorem fills_lead (text : String) : Fills true true (lead ctx text) :=
  .bind (.write _) fun _ => .bind (.write _) fun _ => .write _

theorem fills_listing (class_ : Option String) (block : Example.Block) :
    Fills true true (listing ctx class_ block) := by
  unfold listing
  refine .bind .closeParagraph fun _ => ?_
  split
  · exact .write _
  · exact .bind (.write _) fun _ => .bind (.write _) fun _ => .write _

theorem fills_verbatim : Fills true true (verbatim ctx node) :=
  .bind (.ofExcept _) fun _ => .bind .closeParagraph fun _ => .write _

theorem fills_dirtree : Fills true true (dirtree ctx node) := by
  unfold dirtree
  refine .bind (.rendering _) fun arg => .bind (.rendering _) fun entries => ?_
  exact .bind .closeParagraph fun _ => .write _

theorem fills_codeColumns : Fills true true (codeColumns ctx node) := by
  unfold codeColumns
  exact .bind (.rendering _) fun arg => .bind (.onDisk _) fun row => fills_listing _ _

theorem fills_output (format : Example.Format) : Fills true true (output ctx node format) := by
  unfold output
  exact .bind (.rendering _) fun arg => .bind (.onDisk _) fun body => fills_listing _ _

theorem fills_outputColumns : Fills true true (outputColumns ctx node) := by
  unfold outputColumns
  exact .bind (.rendering _) fun arg => .bind (.onDisk _) fun row => fills_listing _ _

theorem fills_optionText? (owner : Node) (key : String)
    (small : owner.longest ≤ Node.listLongest (node :: rest)) :
    Fills a a (optionText? ctx inside owner key small) := by
  unfold optionText?
  split
  · exact .fail _
  · exact .pure _
  · exact .bind (.asText _) fun _ => .pure _

theorem fills_codeCell (box : Node) (small : box.longest ≤ Node.listLongest (node :: rest)) :
    Fills a a (codeCell ctx inside box small) := by
  unfold codeCell
  refine .bind (.rendering _) fun arg => .bind (fills_optionText? box "caption" small) ?_
  intro caption
  unfold fileCell
  split
  · exact .bind (.onDisk _) fun _ => .pure _
  · exact .bind (.onDisk _) fun _ => .pure _

theorem fills_code : Fills true true (code ctx inside) :=
  .bind (fills_codeCell node _) fun _ => fills_listing _ _

theorem fills_raster : Fills true true (raster ctx inside) := by
  unfold raster
  split
  · exact .bind (fills_codeCell _ _) fun _ => .bind (fills_codeCell _ _) fun _ => fills_listing _ _
  · exact .fail _

theorem fills_table (course : ∀ nodes smaller s, Course ctx s (inside nodes smaller s).2) :
    Fills true true (table ctx inside) := by
  unfold table
  refine .bind (.rendering _) fun spec => .bind .closeParagraph fun _ => ?_
  exact .tabled (course _ _)

theorem fills_captionTitle (label : Option String) : Fills a a (captionTitle ctx label) := by
  unfold captionTitle
  split
  · exact .pure _
  · dsimp only
    split
    · exact .bind (.pure _) fun _ => .pure _
    · exact .bind (.bind (.record _) fun _ => .pure _) fun _ => .pure _

theorem fills_writeCaption (label : Option String) {step : Walk Unit}
    (fills : Fills true true step) : Fills true true (writeCaption ctx label step) := by
  unfold writeCaption
  refine .bind (fills_captionTitle label) fun _ => .bind (.write _) fun _ => ?_
  exact .bind (.inlined fills) fun _ => .write _

section Inside

variable (fills : ∀ nodes smaller, AllIntact nodes → Fills true true (inside nodes smaller))
include fills

theorem fills_argument {n : Nat} (intact : AllIntact (node.requiredNodes n)) :
    Fills true true (argument inside n) := fills _ _ intact

theorem fills_markup (m : Markup) (intact : AllIntact (node.requiredNodes 0)) :
    Fills a true (markup ctx inside m) := by
  unfold markup
  refine .bind .openParagraph fun _ => .bind (.write _) fun _ => ?_
  exact .bind (.inlined (fills_argument fills intact)) fun _ => .write _

theorem fills_wideCell (intact : AllIntact (node.requiredNodes 2)) :
    Fills a true (wideCell inside) := by
  unfold wideCell
  have opened (span : Nat) : Fills a true (modify (·.layTable (·.openCell span))) :=
    .modify fun s inTable => inTable.lay (.openCell span) (fun _ => trivial) fun _ t => rfl
  exact .bind (.rendering _) fun span => .bind (opened span) fun _ =>
    .inlined (fills_argument fills intact)

theorem fills_childrenInline (below : AllIntact node.children) :
    Fills true true (childrenInline inside) :=
  .inlined (fills _ _ (allIntact_trimFront below))

theorem fills_heading (level : Level) (starred : Bool)
    (intact : AllIntact (node.requiredNodes 0)) :
    Fills true true (heading ctx inside level starred) := by
  unfold heading
  refine .bind (.rendering _) fun arg => .bind .closeParagraph fun _ => ?_
  have titled (front back : String) : Fills true true
      (do write front; inlined (argument inside 0); write back) :=
    .bind (.write _) fun _ => .bind (.inlined (fills_argument fills intact)) fun _ => .write _
  dsimp only
  split
  · exact .bind (.pure _) fun number => titled _ _
  · exact .bind (.of_unseen fun _ => ⟨rfl, rfl, rfl, rfl⟩) fun number => titled _ _

theorem fills_list (below : AllIntact node.children) : Fills true true (list ctx inside) := by
  unfold list
  refine .bind .closeParagraph fun _ => .bind (.write _) fun _ => ?_
  refine .bind (b := true) ?_ fun _ => .write _
  exact .unseenWithin (fun _ _ => ⟨rfl, rfl, rfl, rfl⟩) (fun _ _ _ => ⟨rfl, rfl, rfl, rfl⟩) (fills _ _ below)

theorem fills_item (below : AllIntact node.children) : Fills true true (item ctx inside) := by
  unfold item
  refine .bind .get fun s => .bind (b := true) ?_ fun title => .bind (.write _) fun _ => ?_
  · unfold itemTitle?
    split
    · exact .fail _
    · exact .pure _
    · exact .bind (.asText _) fun _ => .pure _
  · exact .bind (fills_childrenInline fills below) fun _ => .write _

theorem fills_objectives (below : AllIntact node.children) :
    Fills true true (objectives ctx inside) := by
  unfold objectives
  refine .bind .closeParagraph fun _ => .bind (.write _) fun _ => ?_
  exact .bind (fills_lead _) fun _ => .bind (fills_list fills below) fun _ => .write _

theorem fills_abstractBlock (intact : AllIntact (node.requiredNodes 0))
    (below : AllIntact node.children) : Fills true true (abstractBlock ctx inside) := by
  unfold abstractBlock
  refine .bind .closeParagraph fun _ => .bind (.write _) fun _ => ?_
  have body : Fills true true (do childrenInline inside; write ctx.flavor.blockClose) :=
    .bind (fills_childrenInline fills below) fun _ => .write _
  dsimp only
  split
  · refine .bind (.write _) fun _ => .bind (.inlined (fills_argument fills intact)) fun _ => ?_
    exact .bind (.write _) fun _ => .bind (.write _) fun _ => body
  · exact body

theorem fills_keywordBlock (intact : AllIntact (node.requiredNodes 0))
    (below : AllIntact node.children) : Fills true true (keywordBlock ctx inside) := by
  unfold keywordBlock
  refine .bind .closeParagraph fun _ => .bind (.write _) fun _ => .bind (fills_lead _) fun _ => ?_
  refine .bind (.write _) fun _ => .bind (.inlined (fills_argument fills intact)) fun _ => ?_
  exact .bind (fills_childrenInline fills below) fun _ => .write _

theorem fills_feature (below : AllIntact node.children) :
    Fills true true (feature ctx inside) := by
  unfold feature
  refine .bind .closeParagraph fun _ => .bind (.write _) fun _ => ?_
  exact .bind (.blocked (fills _ _ below)) fun _ => .write _

theorem fills_float (class_ : String) (below : AllIntact node.children) :
    Fills true true (float ctx inside class_) := by
  unfold float
  exact .bind .closeParagraph fun _ =>
    .floated (fills _ _ (below.of_subset (captionFirst_subset _)))

theorem fills_caption (intact : ∀ n, AllIntact (node.requiredNodes n)) :
    Fills true true (caption ctx inside) := by
  unfold caption
  dsimp only
  split
  · exact .fail _
  refine .bind (fills_writeCaption _ (fills_argument fills (intact 0))) fun _ => ?_
  split
  · refine .bind (fills_argument fills (intact 1)) fun _ => ?_
    split
    · refine .bind (.write _) fun _ => ?_
      exact .bind (.inlined (fills_argument fills (intact 2))) fun _ => .write _
    · exact .pure _
  · exact .pure _

theorem fills_example_ (captioned : ∀ nodes, node.optionNodes? "caption" = .ok (some nodes) →
    AllIntact nodes) : Fills true true (example_ ctx inside) := by
  have shown (base : String) (request : Example.Snippet.Request) {step : Walk Unit}
      (inner : Fills true true step) :
      Fills true true (captionedExample ctx base request step) := by
    unfold captionedExample
    refine .bind (.onDisk _) fun _ => .bind .closeParagraph fun _ => .bind (.write _) fun _ => ?_
    refine .bind (fills_writeCaption _ inner) fun _ => .bind (.write _) fun _ => .write _
  unfold example_
  refine .bind (.rendering _) fun arg => .bind (.ofExcept _) fun options => ?_
  refine .bind (.rendering _) fun request => ?_
  split
  · exact .fail _
  · exact shown _ _ (.pure _)
  next nodes found => exact shown _ _ (fills _ _ (captioned nodes found))

theorem fills_outputBox (below : AllIntact node.children) :
    Fills true true (outputBox ctx inside) := by
  unfold outputBox
  refine .bind (fills_optionText? node "title" _) fun title => ?_
  refine .bind .closeParagraph fun _ => .bind (.write _) fun _ => ?_
  have body : Fills true true (do
      inside node.children (Node.shrinks_children node rest)
      write ctx.flavor.blockClose) :=
    .bind (fills _ _ below) fun _ => .write _
  dsimp only
  split
  · exact .bind (.write _) fun _ => .bind (.write _) fun _ => body
  · exact body

/-- Any node stays in the cell that it stands in, if it is intact. -/
theorem fills_perform (course : ∀ nodes smaller s, Course ctx s (inside nodes smaller s).2)
    {role : Role} (role_eq : roleOf? node = some role) (intact : Intact node) :
    Fills true true (perform ctx node rest inside role) := by
  by_cases table : role = .table
  · subst table
    exact fills_table course
  have other : roleOf? node ≠ some .table := by simpa [role_eq] using table
  have below := intact.children other
  have args := intact.requiredNodes other
  cases role with
  | ignored | partialRule | transparent => exact .pure ()
  | markup m => exact fills_markup fills m (args 0)
  | fixed html quarto => exact fills_fixed html quarto
  | heading level => exact fills_heading fills level _ (args 0)
  | citation style => exact fills_citation style
  | reference => exact fills_reference
  | footnote => exact fills_footnote
  | float class_ => exact fills_float fills class_ below
  | caption => exact fills_caption fills args
  | graphics => exact fills_graphics ctx node
  | drawing => exact fills_drawing ctx node
  | table => exact absurd rfl table
  | wideCell => exact fills_wideCell fills (args 2)
  | rule => exact absurd role_eq intact.not_rule
  | list => exact fills_list fills below
  | item => exact fills_item fills below
  | objectives => exact fills_objectives fills below
  | abstract_ => exact fills_abstractBlock fills (args 0) below
  | keywords => exact fills_keywordBlock fills (args 0) below
  | feature => exact fills_feature fills below
  | equation name => exact fills_math true _
  | verbatim => exact fills_verbatim
  | verb => exact fills_verb ctx node
  | dirtree => exact fills_dirtree
  | url => exact fills_url
  | href => exact fills_href
  | color => exact fills_color
  | coloredText => exact fills_coloredText
  | example_ => exact fills_example_ fills fun nodes found => intact.caption role_eq found
  | codeColumns => exact fills_codeColumns
  | code => exact fills_code
  | output format => exact fills_output format
  | outputColumns => exact fills_outputColumns
  | raster => exact fills_raster
  | outputBox => exact fills_outputBox fills below
  | unknown => exact .record _

theorem fills_visit (course : ∀ nodes smaller s, Course ctx s (inside nodes smaller s).2)
    (all : AllIntact (node :: rest)) : Fills true true (visit ctx node rest inside) := by
  have intact := all node List.mem_cons_self
  cases node with
  | text content =>
    cases intact with
    | text whole =>
      refine fills_text_whole ?_
      rw [String.toList_append]
      exact whole.append (whole_textAhead all.tail)
    | ofRole role_eq | table role_eq => cases role_eq
  | math display content => exact fills_math display content
  | group children =>
    have below : AllIntact children := intact.children (by simp [roleOf?])
    have inner := Fills.inlined (fills _ (Node.shrinks_children (.group children) rest) below)
    simp only [visit, group]
    split
    · exact .bind .openParagraph fun _ => inner
    · exact inner
  | command | environment => exact fills_perform fills course rfl intact

end Inside

end Handlers

theorem fills_neighbours_intact (ctx : Context) {queue : List Node} (all : AllIntact queue) :
    Fills true true (neighbours ctx queue) := by
  induction queue using Node.shrinks_wf.induction with
  | _ queue ih =>
    cases queue with
    | nil =>
      rw [neighbours_nil]
      exact .pure ()
    | cons node rest =>
      rw [neighbours_cons]
      refine .bind (fills_visit (fun inner smaller intact => .deeper (ih inner smaller intact))
        (fun inner _ s => course_nodes ctx inner s) all) fun _ => ?_
      exact ih _ (shrinks_remaining node rest) (allIntact_remaining all)

theorem fills_below (ctx : Context) (node : Node) (rest inner : List Node) (smaller)
    (all : AllIntact inner) : Fills true true (below ctx node rest inner smaller) :=
  .deeper (fills_neighbours_intact ctx all)

/-! Nodes one after the other in a table. -/

/-- What a node does to the cell that it meets, if it minds the cell. -/
inductive Manner
  | opens
  | keeps
  | ends

/-- Whether it is known that a cell is open behind a node, from what was known in front of it. -/
def Manner.behind : Manner → Bool → Bool
  | opens, _ => true
  | keeps, inCell => inCell
  | ends, _ => false

def mannerOf? : Role → Option Manner
  | .markup _ | .fixed _ _ | .citation _ | .reference | .footnote | .graphics | .drawing
  | .wideCell | .equation _ | .verb | .url | .href => some .opens
  | .ignored | .partialRule | .transparent | .unknown | .color | .coloredText => some .keeps
  | .rule => some .ends
  | .heading _ | .float _ | .caption | .table | .list | .item | .objectives | .abstract_
  | .keywords | .feature | .verbatim | .dirtree | .example_ | .codeColumns | .code | .output _
  | .outputColumns | .raster | .outputBox => none

/-- The argument that a node of a role puts into the cell that it opens. -/
def cellArgument? : Role → Option Nat
  | .markup _ => some 0
  | .wideCell => some 2
  | _ => none

theorem fills_manner {ctx : Context} {node : Node} {rest : List Node} {inCell : Bool} {role : Role}
    {manner : Manner} (found : mannerOf? role = some manner)
    (intact : ∀ n, cellArgument? role = some n → AllIntact (node.requiredNodes n)) :
    Fills inCell (manner.behind inCell) (perform ctx node rest (below ctx node rest) role) := by
  have fills := fills_below ctx node rest
  cases role <;> cases found
  case ignored | partialRule | transparent => exact .pure ()
  case unknown => exact .record _
  case markup m => exact fills_markup fills m (intact 0 rfl)
  case wideCell => exact fills_wideCell fills (intact 2 rfl)
  case fixed html quarto => exact fills_fixed html quarto
  case citation style => exact fills_citation style
  case reference => exact fills_reference
  case footnote => exact fills_footnote
  case graphics => exact fills_graphics ctx node
  case drawing => exact fills_drawing ctx node
  case equation name => exact fills_math true _
  case verb => exact fills_verb ctx node
  case url => exact fills_url
  case href => exact fills_href
  case color => exact fills_color
  case coloredText => exact fills_coloredText
  case rule => exact fills_rule

/-- Nodes that fill the cells of a table, from where a cell may be known to be open. A node of any
kind may stand in an open cell, if it is intact. -/
inductive Fits : Bool → List Node → Prop
  | nil {inCell : Bool} : Fits inCell []
  /-- Text may end the cell. -/
  | text {inCell : Bool} {content : String} {rest : List Node}
      (more : Fits false (remaining (.text content) rest)) : Fits inCell (.text content :: rest)
  | words {content : String} {rest : List Node}
      (whole : Table.Whole (content ++ textAhead rest).toList)
      (more : Fits true (remaining (.text content) rest)) : Fits true (.text content :: rest)
  | math {inCell display : Bool} {content : String} {rest : List Node} (more : Fits true rest) :
    Fits inCell (.math display content :: rest)
  | group {inCell : Bool} {children rest : List Node} (some : children.all (·.isBlank) = false)
      (intact : AllIntact children) (more : Fits true rest) : Fits inCell (.group children :: rest)
  | blankGroup {inCell : Bool} {children rest : List Node}
      (blank : children.all (·.isBlank) = true) (more : Fits inCell rest) :
    Fits inCell (.group children :: rest)
  | ofRole {inCell : Bool} {node : Node} {rest : List Node} {role : Role} {manner : Manner}
      (role_eq : roleOf? node = some role) (found : mannerOf? role = some manner)
      (intact : ∀ n, cellArgument? role = some n → AllIntact (node.requiredNodes n))
      (more : Fits (manner.behind inCell) (remaining node rest)) : Fits inCell (node :: rest)
  | intact {node : Node} {rest : List Node} {role : Role} (role_eq : roleOf? node = some role)
      (intact : Intact node) (more : Fits true (remaining node rest)) : Fits true (node :: rest)

theorem whole_of_blank {cs : List Char} (blank : cs.all Text.isBlank = true) : Table.Whole cs := by
  induction cs with
  | nil => exact .nil
  | cons c cs ih =>
    obtain ⟨first, more⟩ := Bool.and_eq_true_iff.mp blank
    refine .plain ⟨?_, ?_⟩ (ih more) <;> rintro rfl <;> exact absurd first (by decide)

/-- Blanks open no cell and end none. -/
theorem fills_blanks (ctx : Context) {blanks : List Node}
    (blank : blanks.all (·.isBlank) = true) (inCell : Bool) :
    Fills inCell inCell (neighbours ctx blanks) := by
  have texts : ∀ n ∈ blanks, n.isBlank = true := List.all_eq_true.mp blank
  cases inCell with
  | true =>
    refine fills_neighbours_intact ctx fun n member => ?_
    have white := texts n member
    cases n with
    | text content => exact .text (whole_of_blank white)
    | command | environment | group | math => cases white
  | false =>
    cases blanks with
    | nil =>
      rw [neighbours_nil]
      exact .pure ()
    | cons first more =>
      have white := texts first List.mem_cons_self
      cases first with
      | command | environment | group | math => cases white
      | text content =>
        have ended : remaining (.text content) more = [] := by
          rw [remaining, List.dropWhile_eq_nil_iff]
          intro n member
          have white := texts n (List.mem_cons_of_mem _ member)
          cases n with
          | text => rfl
          | command | environment | group | math => cases white
        rw [neighbours_cons, ended, neighbours_nil]
        exact .bind (fills_text _) fun _ => .pure ()

/-- The nodes of a table, from one to the next. -/
theorem fills_neighbours (ctx : Context) {inCell : Bool} {queue : List Node}
    (fits : Fits inCell queue) : Fills inCell false (neighbours ctx queue) := by
  induction fits with
  | nil =>
    rw [neighbours_nil]
    exact .of_forget (.pure ())
  | text _ ih =>
    rw [neighbours_cons]
    exact .bind (fills_text _) fun _ => ih
  | words whole _ ih =>
    rw [neighbours_cons]
    exact .bind (fills_text_whole whole) fun _ => ih
  | math _ ih =>
    rw [neighbours_cons]
    exact .bind (fills_math _ _) fun _ => ih
  | @group inCell children rest some intact _ ih =>
    rw [neighbours_cons_meet]
    refine .bind (b := true) ?_ fun _ => ih
    simp only [meet, visit, Walk.group, Node.children, some, Bool.not_false, if_true]
    exact .bind .openParagraph fun _ => .inlined (fills_below ctx (.group children) rest _ _ intact)
  | @blankGroup inCell children rest blank _ ih =>
    rw [neighbours_cons_meet]
    refine .bind ?_ fun _ => ih
    simp only [meet, visit, Walk.group, Node.children, blank, Bool.not_true, Bool.false_eq_true,
      if_false]
    exact .inlined (.deeper (fills_blanks ctx blank inCell))
  | ofRole role_eq found intact _ ih =>
    rw [neighbours_cons_meet, meet, visit_of_role role_eq]
    exact .bind (fills_manner found intact) fun _ => ih
  | @intact node rest role role_eq intact _ ih =>
    rw [neighbours_cons_meet, meet, visit_of_role role_eq]
    refine .bind (fills_perform (fills_below ctx node rest) ?_ role_eq intact) fun _ => ih
    exact fun inner _ s => course_nodes ctx inner s

/-- All that a table writes between its start and its end is of the table itself or stands in one of
its cells, where nodes that do not mind the cells stand in open ones: no text is written while none of
its cells is open. -/
theorem table_holds {ctx : Context} {node : Node} {rest : List Node} {s u : State}
    (role_eq : roleOf? node = some .table) (fits : Fits false node.children)
    (ran : meet ctx node rest s = (.ok (), u)) :
    let closed := s.closeParagraph ctx.flavor
    ∃ spec t ops, columnSpec node = .ok spec ∧
      nodes ctx node.children (closed.startTable (Table.countColumns spec)) = (.ok (), t) ∧
      u = t.finishTable closed.table ∧ t.strays.head? = some "" ∧
      (Layout.start (Table.countColumns spec)).2.HoldsAll ops ∧
      t.table = some ((Layout.start (Table.countColumns spec)).2.run ops).2 ∧
      u.out = closed.out ++ Layout.written (Table.countColumns spec) ops := by
  intro closed
  rw [meet, visit_of_role role_eq] at ran
  obtain ⟨spec, s₁, got, ran₁⟩ := bind_eq_ok ran
  obtain ⟨declared, rfl⟩ := rendering_eq_ok got
  obtain ⟨⟨⟩, s₂, ⟨⟩, ran₂⟩ := bind_eq_ok ran₁
  obtain ⟨t, walked, rfl⟩ := within_eq_ok ran₂
  have started : InTable false (closed.startTable (Table.countColumns spec)) :=
    ⟨unopened_closeParagraph ctx.flavor s₁, _, rfl, nofun⟩
  have filled : Fills false false (nodes ctx node.children) :=
    .deeper (fills_neighbours ctx fits)
  obtain ⟨-, strays, laid⟩ := filled _ _ _ started walked
  obtain ⟨ops, holds, out, table⟩ := laid (Layout.start (Table.countColumns spec)).2 rfl
  refine ⟨spec, t, ops, declared, walked, rfl, by rw [strays]; rfl, holds, table, ?_⟩
  simp only [State.finishTable, table, State.write, out, State.startTable, Layout.written,
    String.append_assoc, closed]

/-- A list in a cell that a text follows, below a cell over two columns. -/
theorem table_holds_of_list :
    let wide : Node := .command "multicolumn" [.mk .required [.text "2"] "2",
      .mk .required [.text "c"] "c", .mk .required [.text "A"] "A"]
    let list : Node := .environment "itemize" [] [.environment "item" [] [.text "x"]]
    let table : Node := .environment "tabular" [.mk .required [.text "ll"] "ll"]
      [wide, list, .text "y \\\\ b & c"]
    let ctx : Context := ⟨.empty, .empty, [], "", ⟨"", "", 0, 0, .offline⟩, .html, 1⟩
    let s := State.start ctx .empty
    ∃ t ops, nodes ctx table.children (s.startTable 2) = (.ok (), t) ∧
      t.strays.head? = some "" ∧ (Layout.start 2).2.HoldsAll ops ∧
      t.table = some ((Layout.start 2).2.run ops).2 ∧
      (meet ctx table [] s).2.out = Layout.written 2 ops := by
  intro wide list table ctx s
  have letter (c : Char) (other : c ≠ '\\' ∧ c ≠ '&') : AllIntact [.text (.ofList [c])] := by
    refine .cons (.text ?_) .nil
    rw [String.toList_ofList]
    exact .plain other .nil
  have itemRole : roleOf? (.environment "item" [] [.text "x"]) = some .item := by decide
  have item : Intact (.environment "item" [] [.text "x"]) :=
    .ofRole itemRole (by decide) (fun _ none => nomatch none) (letter 'x' (by decide)) nofun
  have listRole : roleOf? list = some .list := by decide
  have list_ : Intact list :=
    .ofRole listRole (by decide) (fun _ none => nomatch none) (AllIntact.cons item .nil) nofun
  have wideRole : roleOf? wide = some .wideCell := by decide
  have opens : mannerOf? .wideCell = some .opens := rfl
  have fits : Fits false table.children := by
    refine .ofRole wideRole opens ?_ (.intact listRole list_ (.text .nil))
    rintro _ ⟨⟩
    exact letter 'A' (by decide)
  have ran : meet ctx table [] s = (.ok (), (meet ctx table [] s).2) :=
    Prod.ext (by decide +kernel) rfl
  have declares : columnSpec table = .ok "ll" := by decide
  have two : Table.countColumns "ll" = 2 := by decide +kernel
  obtain ⟨spec, t, ops, declared, walked, -, strays, holds, last, out⟩ :=
    table_holds (by decide) fits ran
  obtain rfl := Except.ok.inj (declares.symm.trans declared)
  rw [two] at walked holds last out
  exact ⟨t, ops, walked, strays, holds, last, out⟩

/-! A list writes where it stands. -/

/-- As long as no row is open, the next text of a table is a tag, with blanks in front of it. -/
theorem head?_run_ne {t : Layout} (noCell : t.cellOpen = false) (noRow : t.row = none)
    {ops : List Operation} (holds : t.HoldsAll ops) :
    ((t.run ops).1 ++ (t.run ops).2.finish).toList.head? ≠ some '\n' := by
  have closed : t.closeCell = ("", t) := by simp [Layout.closeCell, noCell]
  have ended : t.endRow = ("", t) := by simp [Layout.endRow, noRow]
  have opened (span : Nat) : ∃ more, (t.openCell span).1 = "  <tr>\n" ++ more :=
    ⟨t.openTag span, by simp [Layout.openCell, closed, noRow]⟩
  have ensured : t.ensureCell = t.openCell 1 := by simp [Layout.ensureCell, noCell]
  induction ops with
  | nil => cases head : t.inHead <;> simp [Layout.run, Layout.finish, ended, head]
  | cons op ops ih =>
    have skip (same : t.perform op = ("", t)) :
        ((t.run (op :: ops)).1 ++ (t.run (op :: ops)).2.finish).toList.head? ≠ some '\n' := by
      have more := holds.2
      rw [same] at more
      simpa [Layout.run, same] using ih more
    cases op with
    | text content => exact absurd holds.1 (by simp [Layout.Holds, noCell])
    | closeCell => exact skip closed
    | endRow => exact skip ended
    | midrule =>
      cases head : t.inHead with
      | true => simp [Layout.run, Layout.perform, Layout.midrule, ended, head]
      | false => exact skip (by simp [Layout.perform, Layout.midrule, ended, head])
    | openCell span =>
      obtain ⟨more, eq⟩ := opened span
      simp [Layout.run, Layout.perform, eq]
    | ensureCell =>
      obtain ⟨more, eq⟩ := opened 1
      simp [Layout.run, Layout.perform, ensured, eq]
    | nextCell =>
      obtain ⟨more, eq⟩ := opened 1
      simp [Layout.run, Layout.perform, Layout.nextCell, ensured, eq]

/-- A list does not mind the cells: at the start of a table its tags are written between the cells,
and the table opens a cell inside of it. -/
theorem list_outside_of_cells :
    let list : Node := .environment "itemize" [] [.environment "item" [] [.text " x"]]
    let table : Node := .environment "tabular" [.mk .required [.text "l"] "l"] [list]
    let ctx : Context := ⟨.empty, .empty, [], "", ⟨"", "", 0, 0, .offline⟩, .html, 1⟩
    let s := State.start ctx .empty
    let inner := "\n<ul>\n  <li>  <tr>\n    <th>x</li>\n</ul>\n</th>\n  </tr>\n</thead>\n</table>\n"
    let body := "<table class='table'>\n<thead>\n" ++ inner
    (render ctx .empty [table]).1.toOption.map (·.body) = some body ∧
      (nodes ctx table.children (s.startTable 1)).2.strays = ["\n<ul>\n  <li>"] ∧
      ∀ columns ops, (Layout.start columns).2.HoldsAll ops → Layout.written columns ops ≠ body := by
  intro list table ctx s inner body
  refine ⟨by decide +kernel, by decide +kernel, fun columns ops holds same => ?_⟩
  have starts : (((Layout.start columns).2.run ops).1 ++
      ((Layout.start columns).2.run ops).2.finish).toList = inner.toList := by
    have whole := congrArg String.toList same
    rw [Layout.written, String.append_assoc, String.toList_append] at whole
    exact List.append_cancel_left (whole.trans String.toList_append)
  refine head?_run_ne (t := (Layout.start columns).2) rfl rfl holds ?_
  rw [starts]
  decide

end Walk
end Quire
