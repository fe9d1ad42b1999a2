import Quire.Proofs.Diagnostics
import Quire.Walk

/-! The report of a walk: the records that it makes, one behind the other. What was recorded before
a step decides nothing about it, so a part of a walk may as well start from an empty report that is
merged behind it. Main statement: `report_nodes`. -/
namespace Quire.Walk

open Diagnostics (collect)
open Node (shrinks_children)

def State.recorded (records : List Diagnostic) (s : State) : State :=
  { s with diagnostics := collect records }

/-- The step makes records behind those that were made before. These decide neither what it answers
nor anything else that it does. -/
def Records {α : Type} (step : Walk α) : Prop :=
  ∀ s, ∃ made, ∀ before,
    step (s.recorded before) = ((step s).1, (step s).2.recorded (before ++ made))

def Unrecorded (change : State → State) : Prop :=
  ∀ s before, change (s.recorded before) = (change s).recorded before

namespace Unrecorded

theorem layTable (act : Table.Layout → String × Table.Layout) : Unrecorded (·.layTable act) := by
  intro s before
  cases layout : s.table <;> simp only [State.layTable, State.recorded, layout]

theorem write (text : String) : Unrecorded (·.write text) := fun _ _ => rfl

theorem finishTable (outer : Option Table.Layout) : Unrecorded (·.finishTable outer) := by
  intro s before
  cases layout : s.table <;> simp only [State.finishTable, State.recorded, layout]

variable {change other : State → State}

theorem comp (second : Unrecorded other) (first : Unrecorded change) :
    Unrecorded fun s => other (change s) :=
  fun s before => (congrArg other (first s before)).trans (second _ before)

theorem ite {c : State → Prop} [DecidablePred c]
    (blind : ∀ s before, c (s.recorded before) = c s) (yes : Unrecorded change)
    (no : Unrecorded other) : Unrecorded fun s => if c s then change s else other s := by
  intro s before
  simp only [blind]
  split
  · exact yes s before
  · exact no s before

theorem openParagraph (flavor : Flavor) : Unrecorded (·.openParagraph flavor) := by
  unfold State.openParagraph
  refine .ite (fun _ _ => rfl) (.layTable _) (.ite (fun _ _ => rfl) ?_ ?_) <;> exact fun _ _ => rfl

theorem closeParagraph (flavor : Flavor) : Unrecorded (·.closeParagraph flavor) := by
  unfold State.closeParagraph
  refine .ite (fun _ _ => rfl) ?_ ?_ <;> exact fun _ _ => rfl

theorem writePiece (flavor : Flavor) (text : String) : Unrecorded (writePiece flavor text) := by
  unfold Walk.writePiece
  refine .ite (fun _ _ => rfl) (.ite (fun _ _ => rfl) (.write text) fun _ _ => rfl) ?_
  exact .ite (fun _ _ => rfl) (.write text) (.comp (.write _) (.openParagraph flavor))

theorem writeCell (text : String) : Unrecorded (writeCell text) := by
  unfold Walk.writeCell
  exact .ite (fun _ _ => rfl) (fun _ _ => rfl) (.comp (.write text) (.layTable _))

end Unrecorded

namespace Records

variable {ctx : Context} {α β : Type} {step : Walk α} {next : α → Walk β}

theorem pure (a : α) : Records (pure a) :=
  fun _ => ⟨[], fun before => by rw [List.append_nil]; rfl⟩

theorem fail (fault : Fault) : Records (Walk.fail fault : Walk α) :=
  fun _ => ⟨[], fun before => by rw [List.append_nil]; rfl⟩

theorem bind (first : Records step) (second : ∀ a, Records (next a)) : Records (step >>= next) := by
  intro s
  obtain ⟨made, stepped⟩ := first s
  cases ran : step s with
  | mk result t =>
    rw [ran] at stepped
    cases result with
    | error fault =>
      refine ⟨made, fun before => ?_⟩
      simp only [Bind.bind, bind_, stepped, ran]
    | ok a =>
      obtain ⟨more, went⟩ := second a t
      refine ⟨made ++ more, fun before => ?_⟩
      simp only [Bind.bind, bind_, stepped, ran, went, List.append_assoc]

/-- What is done next may depend on the state, but not on its records. -/
theorem ask {next : State → Walk β} (blind : ∀ s before, next (s.recorded before) = next s)
    (each : ∀ s, Records (next s)) : Records (get >>= next) := by
  intro s
  obtain ⟨made, went⟩ := each s s
  exact ⟨made, fun before => (congrFun (blind s before) _).trans (went before)⟩

theorem modify {change : State → State} (unrecorded : Unrecorded change) :
    Records (modify change) := by
  refine fun s => ⟨[], fun before => ?_⟩
  rw [List.append_nil]
  exact congrArg (Prod.mk _) (unrecorded s before)

theorem write (text : String) : Records (Walk.write text) := modify fun _ _ => rfl

theorem openParagraph : Records (Walk.openParagraph ctx) := modify (.openParagraph ctx.flavor)

theorem closeParagraph : Records (Walk.closeParagraph ctx) := modify (.closeParagraph ctx.flavor)

theorem record (diagnostic : Diagnostic) : Records (Walk.record diagnostic) := by
  refine fun s => ⟨[diagnostic], fun before => ?_⟩
  simp only [Walk.record, Walk.modify, State.record, State.recorded, Diagnostics.collect_concat]

theorem ofExcept (result : Except Fault α) : Records (Walk.ofExcept result) := by
  cases result with
  | ok a => exact pure a
  | error fault => exact fail fault

theorem rendering (result : Except RenderFault α) : Records (Walk.rendering result) := by
  cases result with
  | ok a => exact pure a
  | error fault => exact fail _

theorem onDisk (job : Asset.Job α) : Records (Walk.onDisk job) :=
  fun _ => ⟨[], fun before => by rw [List.append_nil]; rfl⟩

theorem ite {c : Prop} [Decidable c] {other : Walk α} (yes : Records step) (no : Records other) :
    Records (if c then step else other) := by
  split
  · exact yes
  · exact no

theorem forM {ι : Type} {act : ι → Walk Unit} (items : List ι) (each : ∀ item, Records (act item)) :
    Records (items.forM act) := by
  induction items with
  | nil => exact pure ()
  | cons item items ih => exact bind (each item) fun _ => ih

theorem within {enter : State → State} {leave : State → State → State} (entered : Unrecorded enter)
    (left : ∀ s t before after,
      leave (s.recorded before) (t.recorded after) = (leave s t).recorded after)
    (inner : Records step) : Records (within enter leave step) := by
  intro s
  obtain ⟨made, stepped⟩ := inner (enter s)
  refine ⟨made, fun before => ?_⟩
  simp only [Walk.within, entered s before, stepped, left]

theorem deeper (inner : Records step) : Records (deeper step) :=
  within (fun _ _ => rfl) (fun _ _ _ _ => rfl) inner

theorem inlined (inner : Records step) : Records (inlined step) :=
  within (fun _ _ => rfl) (fun _ _ _ _ => rfl) inner

theorem blocked (flavor : Flavor) (inner : Records step) : Records (blocked flavor step) := by
  refine within (fun s before => ?_) (fun s t before after => ?_) inner
  · simp only [Unrecorded.closeParagraph flavor s before]
    rfl
  · simp only [Unrecorded.closeParagraph flavor t after]
    rfl

/-- The inner walk starts from an empty report. It is merged behind the one outside, unless the walk
failed. -/
theorem asText_recorded {step : Walk Unit} (inner : Records step) (s : State) :
    ∃ made,
      (∀ before, step ((s.child ctx).recorded before) =
        ((step (s.child ctx)).1, (step (s.child ctx)).2.recorded (before ++ made))) ∧
      ∀ before, Walk.asText ctx step (s.recorded before) =
        ((Walk.asText ctx step s).1, (Walk.asText ctx step s).2.recorded
          (if (step (s.child ctx)).1.isOk then before ++ made else before)) := by
  obtain ⟨made, stepped⟩ := inner (s.child ctx)
  refine ⟨made, stepped, fun before => ?_⟩
  have child : (s.recorded before).child ctx = s.child ctx := rfl
  have alone : step (s.child ctx) = _ := stepped []
  cases ran : step (s.child ctx) with
  | mk result t =>
    rw [ran] at alone
    have told : t = t.recorded made := (Prod.mk.inj alone).2
    simp only [Walk.asText, child, ran]
    cases result with
    | ok =>
      rw [told]
      simp only [State.merge, State.recorded, Diagnostics.merge_collect]
      rfl
    | error fault => rfl

theorem asText {step : Walk Unit} (inner : Records step) : Records (asText ctx step) := by
  intro s
  obtain ⟨made, -, text⟩ := inner.asText_recorded s
  refine ⟨if (step (s.child ctx)).1.isOk then made else [], fun before => ?_⟩
  rw [text]
  split
  · rfl
  · rw [List.append_nil]

end Records

section Handlers
variable {ctx : Context} {node : Node} {rest : List Node} {inside : Inside node rest}

theorem records_piece (raw : List Char) : Records (piece ctx raw) :=
  .bind (.rendering _) fun _ => .modify (.writePiece _ _)

theorem records_cellToken (token : Table.CellToken) : Records (cellToken token) := by
  cases token with
  | text raw => exact .bind (.rendering _) fun _ => .modify (.writeCell _)
  | column | row => exact .modify (.layTable _)

theorem records_plainText (raw : String) : Records (plainText ctx raw) := by
  exact .bind (.rendering _) fun text =>
    .modify (.ite (fun _ _ => rfl) (.write text) fun _ _ => rfl)

theorem records_text (raw : String) : Records (text ctx raw) := by
  unfold text
  refine .ask (fun _ _ => rfl) fun s => .ite (.forM _ records_cellToken) (.ite ?_ ?_)
  · exact records_plainText raw
  · refine .bind (records_piece _) fun _ => .forM _ fun next => ?_
    exact .bind .closeParagraph fun _ => records_piece next

theorem records_math (display : Bool) (tex : String) : Records (math ctx display tex) := by
  unfold math
  refine .ask (fun _ _ => rfl) fun s => .ite ?_ (.ite ?_ ?_)
  · exact .bind .openParagraph fun _ => .write _
  · exact .bind .closeParagraph fun _ => .write _
  · exact .bind .openParagraph fun _ => .write _

theorem records_fixed (html quarto : String) : Records (fixed ctx html quarto) :=
  .bind .openParagraph fun _ => .write _

theorem records_reference (ctx : Context) (node : Node) : Records (reference ctx node) := by
  unfold reference
  refine .bind (.rendering _) fun arg => .bind .openParagraph fun _ => ?_
  split
  · exact .write _
  · exact .bind (.write _) fun _ => .record _

theorem records_citation (ctx : Context) (node : Node) (style : CiteStyle) :
    Records (citation ctx node style) := by
  unfold citation
  refine .bind (.rendering _) fun keys => .bind (.rendering _) fun entries => ?_
  exact .bind (.rendering _) fun notes => .bind .openParagraph fun _ => .write _

theorem records_url (ctx : Context) (node : Node) : Records (url ctx node) := by
  unfold url
  exact .bind (.rendering _) fun arg => .bind .openParagraph fun _ => .write _

theorem records_verb (ctx : Context) (node : Node) : Records (verb ctx node) := by
  unfold verb
  refine .bind (.rendering _) fun arg => ?_
  split
  · exact .fail _
  · exact .bind .openParagraph fun _ => .write _

theorem records_verbatim (ctx : Context) (node : Node) : Records (verbatim ctx node) :=
  .bind (.ofExcept _) fun _ => .bind .closeParagraph fun _ => .write _

theorem records_dirtree (ctx : Context) (node : Node) : Records (dirtree ctx node) := by
  refine .bind (.rendering _) fun arg => .bind (.rendering _) fun entries => ?_
  exact .bind .closeParagraph fun _ => .write _

theorem records_lead (text : String) : Records (lead ctx text) :=
  .bind (.write _) fun _ => .bind (.write _) fun _ => .write _

theorem records_headingNumber (level : Level) : Records (headingNumber ctx level rest) :=
  fun _ => ⟨[], fun before => by rw [List.append_nil]; rfl⟩

theorem records_captionTitle (label : Option String) : Records (captionTitle ctx label) := by
  unfold captionTitle
  split
  · exact .pure _
  · split
    · exact .pure _
    · exact .bind (.record _) fun _ => .pure _

theorem records_graphics (ctx : Context) (node : Node) : Records (graphics ctx node) := by
  unfold graphics
  refine .bind (.rendering _) fun arg => .bind .openParagraph fun _ => ?_
  split
  · exact .write _
  · exact .bind (.onDisk _) fun image => .write _

theorem records_drawing (ctx : Context) (node : Node) : Records (drawing ctx node) := by
  unfold drawing
  refine .bind (.modify fun _ _ => rfl) fun _ => .ask (fun _ _ => rfl) fun s => ?_
  exact .bind (.onDisk _) fun image => .bind .openParagraph fun _ => .write _

theorem records_listing (class_ : Option String) (block : Example.Block) :
    Records (listing ctx class_ block) := by
  unfold listing
  refine .bind .closeParagraph fun _ => ?_
  split
  · exact .write _
  · exact .bind (.write _) fun _ => .bind (.write _) fun _ => .write _

theorem records_codeColumns (ctx : Context) (node : Node) : Records (codeColumns ctx node) := by
  unfold codeColumns
  exact .bind (.rendering _) fun arg => .bind (.onDisk _) fun row => records_listing none _

theorem records_output (ctx : Context) (node : Node) (format : Example.Format) :
    Records (output ctx node format) := by
  unfold output
  exact .bind (.rendering _) fun arg => .bind (.onDisk _) fun body => records_listing none _

theorem records_outputColumns (ctx : Context) (node : Node) :
    Records (outputColumns ctx node) := by
  unfold outputColumns
  exact .bind (.rendering _) fun arg => .bind (.onDisk _) fun row => records_listing none _

theorem records_fileCell (file : String) (caption : Option String) :
    Records (fileCell ctx file caption) := by
  unfold fileCell
  split
  · exact .bind (.onDisk _) fun body => .pure _
  · exact .bind (.onDisk _) fun lines => .pure _

theorem records_colored (color text : String) : Records (colored ctx color text) :=
  .ite (.pure ()) (.bind .openParagraph fun _ => .write _)

variable (records : ∀ nodes smaller, Records (inside nodes smaller))
include records

theorem records_markup (m : Markup) : Records (markup ctx inside m) := by
  unfold markup
  refine .bind .openParagraph fun _ => .bind (.write _) fun _ => ?_
  exact .bind (.inlined (records _ _)) fun _ => .write _

theorem records_argumentText (n : Nat) : Records (argumentText ctx inside n) :=
  .asText (records _ _)

theorem records_footnote : Records (footnote ctx inside) := by
  unfold footnote
  refine .bind (.rendering _) fun _ => .bind (records_argumentText records 0) fun body => ?_
  refine .bind (.modify fun _ _ => rfl) fun _ => .bind .openParagraph fun _ => ?_
  exact .modify fun _ _ => rfl

theorem records_href : Records (href ctx inside) := by
  unfold href
  refine .bind (.rendering _) fun _ => .bind (records_argumentText records 1) fun _ => ?_
  exact .bind .openParagraph fun _ => .write _

theorem records_color : Records (color ctx inside) := by
  unfold color
  refine .bind (.rendering _) fun arg => .bind (.asText (records _ _)) fun text => ?_
  exact records_colored _ text

theorem records_coloredText : Records (coloredText ctx inside) := by
  unfold coloredText
  refine .bind (.rendering _) fun name => .bind (records_argumentText records 1) fun text => ?_
  exact records_colored name text

theorem records_heading (level : Level) (starred : Bool) :
    Records (heading ctx inside level starred) := by
  unfold heading
  refine .bind (.rendering _) fun arg => .bind .closeParagraph fun _ => ?_
  have titled (opening closing : String) : Records (do
      write opening
      inlined (argument inside 0)
      write closing) :=
    .bind (.write _) fun _ => .bind (.inlined (records _ _)) fun _ => .write _
  dsimp only
  split
  · exact .bind (.pure "") fun number => titled _ _
  · exact .bind (records_headingNumber level) fun number => titled _ _

theorem records_list : Records (list ctx inside) := by
  unfold list
  refine .bind .closeParagraph fun _ => .bind (.write _) fun _ => .bind ?_ fun _ => .write _
  exact .within (fun _ _ => rfl) (fun _ _ _ _ => rfl) (records _ _)

theorem records_childrenInline : Records (childrenInline inside) := .inlined (records _ _)

theorem records_itemTitle? : Records (itemTitle? ctx inside) := by
  unfold itemTitle?
  split
  · exact .fail _
  · exact .pure _
  · exact .bind (.asText (records _ _)) fun title => .pure _

theorem records_item : Records (item ctx inside) := by
  unfold item
  refine .ask (fun _ _ => rfl) fun s => .bind (records_itemTitle? records) fun title => ?_
  refine .bind (.write _) fun _ => .bind (records_childrenInline records) fun _ => .write _

theorem records_objectives : Records (objectives ctx inside) := by
  unfold objectives
  refine .bind .closeParagraph fun _ => .bind (.write _) fun _ => .bind (records_lead _) fun _ => ?_
  exact .bind (records_list records) fun _ => .write _

theorem records_abstractBlock : Records (abstractBlock ctx inside) := by
  unfold abstractBlock
  refine .bind .closeParagraph fun _ => .bind (.write _) fun _ => ?_
  have body : Records (do
      childrenInline inside
      write ctx.flavor.blockClose) :=
    .bind (records_childrenInline records) fun _ => .write _
  dsimp only
  split
  · refine .bind (.write _) fun _ => .bind (.inlined (records _ _)) fun _ => ?_
    exact .bind (.write _) fun _ => .bind (.write _) fun _ => body
  · exact body

theorem records_keywordBlock : Records (keywordBlock ctx inside) := by
  unfold keywordBlock
  refine .bind .closeParagraph fun _ => .bind (.write _) fun _ => .bind (records_lead _) fun _ => ?_
  refine .bind (.write _) fun _ => .bind (.inlined (records _ _)) fun _ => ?_
  exact .bind (records_childrenInline records) fun _ => .write _

theorem records_feature : Records (feature ctx inside) := by
  unfold feature
  refine .bind .closeParagraph fun _ => .bind (.write _) fun _ => ?_
  exact .bind (.blocked _ (records _ _)) fun _ => .write _

theorem records_float (class_ : String) : Records (float ctx inside class_) :=
  .bind .closeParagraph fun _ => .within (fun _ _ => rfl) (fun _ _ _ _ => rfl) (records _ _)

omit records in
theorem records_writeCaption (label : Option String) {caption : Walk Unit}
    (records : Records caption) : Records (writeCaption ctx label caption) := by
  unfold writeCaption
  refine .bind (records_captionTitle label) fun (anchor, title) => .bind (.write _) fun _ => ?_
  exact .bind (.inlined records) fun _ => .write _

theorem records_caption : Records (caption ctx inside) := by
  unfold caption
  dsimp only
  refine .ite (.fail _) (.bind (records_writeCaption _ (records _ _)) fun _ => .ite ?_ (.pure ()))
  refine .bind (records _ _) fun _ => .ite ?_ (.pure ())
  exact .bind (.write _) fun _ => .bind (.inlined (records _ _)) fun _ => .write _

theorem records_table : Records (table ctx inside) := by
  unfold table
  refine .bind (.rendering _) fun spec => .bind .closeParagraph fun _ => ?_
  exact .within (fun _ _ => rfl) (fun s t _ after => Unrecorded.finishTable s.table t after)
    (records _ _)

theorem records_wideCell : Records (wideCell inside) := by
  unfold wideCell
  refine .bind (.rendering _) fun span => .bind (.modify (.layTable _)) fun _ => ?_
  exact .inlined (records _ _)

theorem records_optionText? (owner : Node) (key : String)
    (small : owner.longest ≤ Node.listLongest (node :: rest)) :
    Records (optionText? ctx inside owner key small) := by
  unfold optionText?
  split
  · exact .fail _
  · exact .pure _
  · exact .bind (.asText (records _ _)) fun text => .pure _

omit records in
theorem records_captionedExample (base : String) (request : Example.Snippet.Request)
    {caption : Walk Unit} (records : Records caption) :
    Records (captionedExample ctx base request caption) := by
  unfold captionedExample
  refine .bind (.onDisk _) fun block => .bind .closeParagraph fun _ => .bind (.write _) fun _ => ?_
  exact .bind (records_writeCaption _ records) fun _ => .bind (.write _) fun _ => .write _

theorem records_example_ : Records (example_ ctx inside) := by
  unfold example_
  refine .bind (.rendering _) fun arg => .bind (.ofExcept _) fun options => ?_
  refine .bind (.rendering _) fun request => ?_
  split
  · exact .fail _
  · exact records_captionedExample _ _ (.pure ())
  · exact records_captionedExample _ _ (records _ _)

theorem records_codeCell (box : Node) (small : box.longest ≤ Node.listLongest (node :: rest)) :
    Records (codeCell ctx inside box small) := by
  unfold codeCell
  refine .bind (.rendering _) fun arg => ?_
  exact .bind (records_optionText? records box _ small) fun caption => records_fileCell _ caption

theorem records_code : Records (code ctx inside) :=
  .bind (records_codeCell records node _) fun _ => records_listing none _

theorem records_raster : Records (raster ctx inside) := by
  unfold raster
  split
  · refine .bind (records_codeCell records _ _) fun a => ?_
    exact .bind (records_codeCell records _ _) fun b => records_listing _ _
  · exact .fail _

theorem records_outputBox : Records (outputBox ctx inside) := by
  unfold outputBox
  refine .bind (records_optionText? records node _ _) fun title => .bind .closeParagraph fun _ => ?_
  refine .bind (.write _) fun _ => ?_
  have body : Records (do
      inside node.children (shrinks_children node rest)
      write ctx.flavor.blockClose) :=
    .bind (records _ _) fun _ => .write _
  dsimp only
  split
  · exact .bind (.write _) fun _ => .bind (.write _) fun _ => body
  · exact body

theorem records_perform (role : Role) : Records (perform ctx node rest inside role) := by
  cases role with
  | ignored | partialRule | transparent => exact .pure ()
  | markup m => exact records_markup records m
  | fixed html quarto => exact records_fixed html quarto
  | heading level => exact records_heading records level _
  | citation style => exact records_citation ctx node style
  | reference => exact records_reference ctx node
  | footnote => exact records_footnote records
  | float class_ => exact records_float records class_
  | caption => exact records_caption records
  | graphics => exact records_graphics ctx node
  | drawing => exact records_drawing ctx node
  | table => exact records_table records
  | wideCell => exact records_wideCell records
  | rule => exact .modify (.layTable _)
  | list => exact records_list records
  | item => exact records_item records
  | objectives => exact records_objectives records
  | abstract_ => exact records_abstractBlock records
  | keywords => exact records_keywordBlock records
  | feature => exact records_feature records
  | equation name => exact records_math true _
  | verbatim => exact records_verbatim ctx node
  | verb => exact records_verb ctx node
  | dirtree => exact records_dirtree ctx node
  | url => exact records_url ctx node
  | href => exact records_href records
  | color => exact records_color records
  | coloredText => exact records_coloredText records
  | example_ => exact records_example_ records
  | codeColumns => exact records_codeColumns ctx node
  | code => exact records_code records
  | output format => exact records_output ctx node format
  | outputColumns => exact records_outputColumns ctx node
  | raster => exact records_raster records
  | outputBox => exact records_outputBox records
  | unknown => exact .record _

theorem records_visit : Records (visit ctx node rest inside) := by
  cases node with
  | text content => exact records_text _
  | math display content => exact records_math display content
  | group children =>
    have children_ := Records.inlined (records _ (shrinks_children (.group children) rest))
    simp only [visit, group]
    split
    · exact .bind .openParagraph fun _ => children_
    · exact children_
  | command name args => exact records_perform records _
  | environment name args children => exact records_perform records _

end Handlers

theorem records_neighbours (ctx : Context) (nodes : List Node) :
    Records (neighbours ctx nodes) := by
  induction nodes using Node.shrinks_wf.induction with
  | _ nodes ih =>
    cases nodes with
    | nil =>
      rw [neighbours_nil]
      exact .pure ()
    | cons node rest =>
      rw [neighbours_cons]
      refine Records.bind (records_visit fun inner smaller => .deeper (ih inner smaller)) ?_
      exact fun _ => ih _ (shrinks_remaining node rest)

/-- The report of records is the same whether they are recorded one after the other, or parts of
them apart and merged in order: a set of names, and each label where it was first missed. So an
inner walk with a report of its own that is merged behind the one outside tells what it would tell
if it went on with that one. Of an inner walk that failed nothing is told. -/
theorem report_nodes (xs ys : List Diagnostic) (parts : List (List Diagnostic)) (ctx : Context)
    (queue : List Node) (s : State) :
    (collect xs).merge (collect ys) = collect (xs ++ ys) ∧
      parts.foldl (fun report part => report.merge (collect part)) (collect xs) =
        collect (xs ++ parts.flatten) ∧
      (∀ name, name ∈ (collect xs).unknown ↔ .unknownNode name ∈ xs) ∧
      (collect xs).unknown.Pairwise (· < ·) ∧
      (collect xs).unresolved = (xs.filterMap Diagnostic.label?).eraseDups ∧
      ∃ made,
        let inner := nodes ctx queue (s.child ctx)
        inner.2.diagnostics = collect made ∧
          nodes ctx queue ((s.child ctx).recorded xs) =
            (inner.1, inner.2.recorded (xs ++ made)) ∧
          (asText ctx (nodes ctx queue) (s.recorded xs)).2.diagnostics =
            collect (if inner.1.isOk then xs ++ made else xs) := by
  refine ⟨Diagnostics.merge_collect xs ys, Diagnostics.foldl_merge_collect xs parts,
    fun name => Diagnostics.mem_unknown_collect, Diagnostics.ascending_unknown_collect xs, ?_, ?_⟩
  · rw [Diagnostics.unresolved_collect, Diagnostics.foldl_addLabel_eq]
  have records : Records (nodes ctx queue) := .deeper (records_neighbours ctx queue)
  obtain ⟨made, went, text⟩ := records.asText_recorded s
  refine ⟨made, congrArg (fun ran => ran.2.diagnostics) (went []), went xs, ?_⟩
  rw [text]
  rfl

end Quire.Walk
