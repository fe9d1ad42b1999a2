import Quire.Proofs.Text.Numeral
import Quire.Proofs.Walk.Abreast

/-! Each thing that a walk does for a node, abreast of the same thing in a context of kin, and from
that whole walks. -/
namespace Quire.Walk

open Node (shrinks_children)

instance : Nonempty Example.Cell := ⟨⟨none, none, .text ""⟩⟩

section Handlers
variable {n : Nat} {a b ctx : Context} {node : Node} {rest : List Node} {inside inside' : Inside node rest}

theorem silent_writePiece (text : String) : Silent ctx (modify (writePiece ctx.flavor text)) := by
  apply Reports.modify
  intro s
  unfold writePiece
  split
  · split
    · exact .write s text
    · exact .refl s
  split
  · exact .write s text
  · exact (Quiet.openParagraph s).trans (.write _ _)

theorem silent_writeCell (text : String) : Silent ctx (modify (writeCell text)) := by
  apply Reports.modify
  intro s
  unfold writeCell
  split
  · exact .refl s
  · exact (Quiet.lay .ensureCell s).trans (.write _ text)

theorem silent_plain (text : String) : Silent ctx (modify fun s =>
    if s.inParagraph || s.inline || !Text.allBlank text then s.write text else s) := by
  apply Reports.modify
  intro s
  split
  · exact .write s text
  · exact .refl s

theorem abreast_piece (raw : List Char) : Abreast n a b Unrelated (piece a raw) (piece b raw) :=
  .bind (.rendering (Prose.answers_normalize _ _ _)) fun _ _ _ =>
    .silent (silent_writePiece _) (silent_writePiece _)

theorem abreast_cellToken (token : Table.CellToken) :
    Abreast n a b Unrelated (cellToken token) (cellToken token) := by
  cases token with
  | text raw =>
    exact .bind (.rendering (Prose.answers_normalize _ _ _)) fun _ _ _ =>
      .silent (silent_writeCell _) (silent_writeCell _)
  | column => exact .silent (.lay .nextCell) (.lay .nextCell)
  | row => exact .silent (.lay .endRow) (.lay .endRow)

theorem abreast_text (raw : String) : Abreast n a b Unrelated (text a raw) (text b raw) := by
  unfold text
  refine .bind .get fun s t bears => ?_
  rw [bears.inTable_eq, bears.inline_eq, bears.depth_eq, bears.blockDepth_eq]
  refine .ite (.forM _ abreast_cellToken) (.ite ?_ ?_)
  · exact .bind (.rendering (Prose.answers_normalize _ _ _)) fun _ _ _ =>
      .silent (silent_plain _) (silent_plain _)
  · refine .bind (abreast_piece _) fun _ _ _ => .forM _ fun next => ?_
    exact .bind .closeParagraph fun _ _ _ => abreast_piece next

theorem silent_math (display : Bool) (tex : String) : Silent ctx (math ctx display tex) := by
  unfold math
  refine .bind .get fun s => .ite ?_ (.ite ?_ ?_)
  · exact .bind .openParagraph fun _ => .write _
  · exact .bind .closeParagraph fun _ => .write _
  · exact .bind .openParagraph fun _ => .write _

theorem silent_lead (text : String) : Silent ctx (lead ctx text) :=
  .bind (.write _) fun _ => .bind (.write _) fun _ => .write _

theorem silent_fixed (html quarto : String) : Silent ctx (fixed ctx html quarto) :=
  .bind .openParagraph fun _ => .write _

theorem silent_listing (class_ : Option String) (block : Example.Block) :
    Silent ctx (listing ctx class_ block) := by
  unfold listing
  refine .bind .closeParagraph fun _ => ?_
  split
  · exact .write _
  · exact .bind (.write _) fun _ => .bind (.write _) fun _ => .write _

theorem silent_colored (color text : String) : Silent ctx (colored ctx color text) :=
  .ite (.pure ()) (.bind .openParagraph fun _ => .write _)

theorem silent_headingNumber (level : Level) : Silent ctx (headingNumber ctx level rest) :=
  ⟨fun _ => rfl, fun _ => rfl, fun _ => rfl, fun _ => rfl, fun s => .count s level⟩

theorem silent_note (body : String) : Silent ctx (do
    modify fun s => { s with footnotes := s.footnotes ++ [Text.trim body] }
    openParagraph ctx
    modify (·.mark ctx.flavor body)) := by
  refine .bind (.modify fun s => ⟨rfl, rfl, rfl, .note s body⟩) fun _ => ?_
  exact .bind .openParagraph fun _ => .modify fun s => ⟨rfl, rfl, rfl, .mark s body⟩

def missed (label : String) (found : Option α) : List String :=
  if found.isSome then [] else [label]

theorem reports_captionTitle (label : String) :
    Reports ctx (missed label (ctx.labels.get? label)) (captionTitle ctx (some label)) := by
  unfold captionTitle
  dsimp only
  split
  next number found =>
    rw [found]
    exact .bind (.pure _) fun _ => .pure _
  next none_ =>
    rw [none_]
    exact .append (.append (.record label) fun _ => .pure _) fun _ => .pure _

theorem abreast_captionTitle (label : Option String) :
    Abreast n a b Unrelated (captionTitle a label) (captionTitle b label) := by
  cases label with
  | none => exact .pure trivial
  | some label =>
    refine .reports (reports_captionTitle label) (reports_captionTitle label) fun labels => ?_
    simp only [missed, labels label]

/-- A resolved reference is written as a link, and one that is not resolved is noted. -/
theorem reports_resolved (ctx : Context) (label word : String) : Reports ctx
    (missed label (ctx.labels.get? label))
    (match Reference.resolve? ctx.labels label ctx.chapter ctx.target.extension with
      | some resolved =>
        write (ctx.flavor.link resolved.href (Reference.withWord word resolved.number))
      | none => do
        write (Reference.withWord word Reference.unknownNumber)
        record (.unresolved label)) := by
  have known : (Reference.resolve? ctx.labels label ctx.chapter ctx.target.extension).isSome =
      (ctx.labels.get? label).isSome := by
    simp [Reference.resolve?]
  rw [missed, ← known]
  cases Reference.resolve? ctx.labels label ctx.chapter ctx.target.extension with
  | some resolved => exact .write _
  | none => exact .append (.write _) fun _ => .record label

theorem abreast_reference : Abreast n a b Unrelated (reference a node) (reference b node) := by
  unfold reference
  refine .bind (.rendering (.refl _)) ?_
  rintro arg _ rfl
  refine .bind .openParagraph fun _ _ _ => ?_
  refine .reports (reports_resolved a _ _) (reports_resolved b _ _) fun labels => ?_
  rw [missed, missed, labels]

theorem abreast_citation (kin : a.Kin b) (style : CiteStyle) :
    Abreast n a b Unrelated (citation a node style) (citation b node style) := by
  cases kin
  unfold citation
  refine .bind (.rendering (.refl _)) ?_
  rintro keys _ rfl
  refine .bind (.rendering (.refl _)) fun entries _ _ => ?_
  refine .bind (.rendering (.mapM _ fun arg => Prose.answers_normalize _ _ _)) fun _ _ _ => ?_
  exact .bind .openParagraph fun _ _ _ => .write _ _

theorem abreast_url : Abreast n a b Unrelated (url a node) (url b node) := by
  unfold url
  exact .bind (.rendering (.refl _)) fun _ _ _ => .bind .openParagraph fun _ _ _ => .write _ _

theorem abreast_verb (kin : a.Kin b) : Abreast n a b Unrelated (verb a node) (verb b node) := by
  cases kin
  unfold verb
  refine .bind (.rendering (.refl _)) ?_
  rintro arg _ rfl
  dsimp only
  split
  · exact .fail _
  · exact .bind .openParagraph fun _ _ _ => .write _ _

theorem abreast_verbatim : Abreast n a b Unrelated (verbatim a node) (verbatim b node) :=
  .bind (.ofExcept (.refl _)) fun _ _ _ => .bind .closeParagraph fun _ _ _ => .write _ _

theorem abreast_dirtree : Abreast n a b Unrelated (dirtree a node) (dirtree b node) := by
  unfold dirtree
  refine .bind (.rendering (.refl _)) ?_
  rintro arg _ rfl
  have entries : Answers Unrelated (treeEntries a.target arg.raw) (treeEntries b.target arg.raw) :=
    .mapM _ fun (depth, name) => (Prose.answers_normalize _ _ _).map fun _ _ _ => trivial
  exact .bind (.rendering entries) fun _ _ _ => .bind .closeParagraph fun _ _ _ => .write _ _

theorem abreast_graphics (kin : a.Kin b) :
    Abreast n a b Unrelated (graphics a node) (graphics b node) := by
  cases kin
  unfold graphics
  refine .bind (.rendering (.refl _)) ?_
  rintro arg _ rfl
  refine .bind .openParagraph fun _ _ _ => ?_
  split
  · exact .write _ _
  · exact .bind (.onDisk (.mk ..) (Asset.publishes_publish _)) fun _ _ _ => .write _ _

/-- A drawing is named without slashes. -/
theorem plain_drawingName (ctx : Context) (s : State) : '/' ∉ (drawingName ctx s).toList := by
  have digits := Text.not_mem_toDigits (c := '/') (by decide)
  unfold drawingName
  split
  next label _ =>
    rw [Reference.labelId, String.toList_ofList]
    refine fun bad => ?_
    obtain ⟨c, -, eq⟩ := List.mem_map.mp bad
    split at eq
    next kept =>
      subst eq
      exact absurd kept (by decide)
    next => exact absurd eq (by decide)
  next => simp [Text.padded, digits]

theorem abreast_drawing (kin : a.Kin b) :
    Abreast n a b Unrelated (drawing a node) (drawing b node) := by
  have counted : Abreast n a b Unrelated (modify fun s => { s with drawings := s.drawings + 1 })
      (modify fun s => { s with drawings := s.drawings + 1 }) :=
    ⟨.draw, .draw, fun s t alike _ => ⟨.ok trivial,
      alike.turn (fun v => { v with drawings := v.drawings + 1 }) rfl rfl rfl rfl rfl rfl⟩⟩
  unfold drawing
  refine .bind counted fun _ _ _ => .bind .get fun s t bears => ?_
  have name : drawingName a s = drawingName b t := by
    cases kin
    simp only [drawingName, bears.floatLabel_eq, bears.drawings_eq]
  rw [name]
  cases kin
  refine .bind (.onDisk (.mk ..) (Asset.publishes_publishDrawing _ (plain_drawingName _ _))) ?_
  exact fun _ _ _ => .bind .openParagraph fun _ _ _ => .write _ _

theorem abreast_codeColumns (kin : a.Kin b) :
    Abreast n a b Unrelated (codeColumns a node) (codeColumns b node) := by
  cases kin
  unfold codeColumns
  refine .bind (.rendering (.refl _)) ?_
  rintro arg _ rfl
  refine .bind (.onDisk (.mk ..) (Asset.publishes_looking _)) fun _ _ _ => ?_
  exact .silent (silent_listing _ _) (silent_listing _ _)

theorem abreast_output (kin : a.Kin b) (format : Example.Format) :
    Abreast n a b Unrelated (output a node format) (output b node format) := by
  cases kin
  unfold output
  refine .bind (.rendering (.refl _)) ?_
  rintro arg _ rfl
  refine .bind (.onDisk (.mk ..) (Example.Snippet.publishes_output _ _ _ _)) fun _ _ _ => ?_
  exact .silent (silent_listing _ _) (silent_listing _ _)

theorem abreast_outputColumns (kin : a.Kin b) :
    Abreast n a b Unrelated (outputColumns a node) (outputColumns b node) := by
  cases kin
  unfold outputColumns
  refine .bind (.rendering (.refl _)) ?_
  rintro arg _ rfl
  refine .bind (.onDisk (.mk ..) (Example.Snippet.publishes_outputs _ _ _ _ _)) fun _ _ _ => ?_
  exact .silent (silent_listing _ _) (silent_listing _ _)

variable (abreast : ∀ nodes smaller, Abreast n a b Unrelated (inside nodes smaller)
  (inside' nodes smaller))
include abreast

theorem abreast_markup (m : Markup) :
    Abreast n a b Unrelated (markup a inside m) (markup b inside' m) := by
  unfold markup
  refine .bind .openParagraph fun _ _ _ => .bind (.write _ _) fun _ _ _ => ?_
  exact .bind (.inlined (abreast _ _)) fun _ _ _ => .write _ _

theorem abreast_argumentText (k : Nat) :
    Abreast n a b Unrelated (argumentText a inside k) (argumentText b inside' k) :=
  .asText (abreast _ _)

theorem abreast_footnote : Abreast n a b Unrelated (footnote a inside) (footnote b inside') := by
  unfold footnote
  refine .bind (.rendering (.refl _)) fun _ _ _ => ?_
  exact .bind (abreast_argumentText abreast 0) fun _ _ _ => .silent (silent_note _) (silent_note _)

theorem abreast_href : Abreast n a b Unrelated (href a inside) (href b inside') := by
  unfold href
  refine .bind (.rendering (.refl _)) fun _ _ _ => ?_
  refine .bind (abreast_argumentText abreast 1) fun _ _ _ => ?_
  exact .bind .openParagraph fun _ _ _ => .write _ _

theorem abreast_color : Abreast n a b Unrelated (color a inside) (color b inside') := by
  unfold color
  refine .bind (.rendering (.refl _)) fun _ _ _ => .bind (.asText (abreast _ _)) fun _ _ _ => ?_
  exact .silent (silent_colored _ _) (silent_colored _ _)

theorem abreast_coloredText :
    Abreast n a b Unrelated (coloredText a inside) (coloredText b inside') := by
  unfold coloredText
  refine .bind (.rendering (.refl _)) fun _ _ _ => ?_
  refine .bind (abreast_argumentText abreast 1) fun _ _ _ => ?_
  exact .silent (silent_colored _ _) (silent_colored _ _)

theorem abreast_heading (level : Level) (starred : Bool) :
    Abreast n a b Unrelated (heading a inside level starred) (heading b inside' level starred) := by
  unfold heading
  refine .bind (.rendering (.refl _)) fun _ _ _ => .bind .closeParagraph fun _ _ _ => ?_
  have titled (x y x' y' : String) : Abreast n a b Unrelated
      (do write x; inlined (argument inside 0); write y)
      (do write x'; inlined (argument inside' 0); write y') :=
    .bind (.write _ _) fun _ _ _ => .bind (.inlined (abreast _ _)) fun _ _ _ => .write _ _
  dsimp only
  split
  · exact .bind (p := Unrelated) (.pure trivial) fun number number' _ => titled _ _ _ _
  · exact .bind (.silent (silent_headingNumber level) (silent_headingNumber level))
      fun number number' _ => titled _ _ _ _

theorem abreast_list : Abreast n a b Unrelated (list a inside) (list b inside') := by
  unfold list
  refine .bind .closeParagraph fun _ _ _ => .bind (.write _ _) fun _ _ _ => ?_
  exact .bind (.listed _ (abreast _ _)) fun _ _ _ => .write _ _

theorem abreast_childrenInline :
    Abreast n a b Unrelated (childrenInline inside) (childrenInline inside') :=
  .inlined (abreast _ _)

theorem abreast_itemTitle? :
    Abreast n a b Unrelated (itemTitle? a inside) (itemTitle? b inside') := by
  unfold itemTitle?
  split
  · exact .fail _
  · exact .pure trivial
  · exact .bind (.asText (abreast _ _)) fun _ _ _ => .pure trivial

theorem abreast_item : Abreast n a b Unrelated (item a inside) (item b inside') := by
  unfold item
  refine .bind .get fun s t _ => .bind (abreast_itemTitle? abreast) fun _ _ _ => ?_
  refine .bind (.write _ _) fun _ _ _ => ?_
  exact .bind (abreast_childrenInline abreast) fun _ _ _ => .write _ _

theorem abreast_objectives :
    Abreast n a b Unrelated (objectives a inside) (objectives b inside') := by
  unfold objectives
  refine .bind .closeParagraph fun _ _ _ => .bind (.write _ _) fun _ _ _ => ?_
  refine .bind (.silent (silent_lead _) (silent_lead _)) fun _ _ _ => ?_
  exact .bind (abreast_list abreast) fun _ _ _ => .write _ _

theorem abreast_abstractBlock :
    Abreast n a b Unrelated (abstractBlock a inside) (abstractBlock b inside') := by
  unfold abstractBlock
  refine .bind .closeParagraph fun _ _ _ => .bind (.write _ _) fun _ _ _ => ?_
  have body : Abreast n a b Unrelated
      (do childrenInline inside; write a.flavor.blockClose)
      (do childrenInline inside'; write b.flavor.blockClose) :=
    .bind (abreast_childrenInline abreast) fun _ _ _ => .write _ _
  dsimp only
  split
  · refine .bind (.write _ _) fun _ _ _ => .bind (.inlined (abreast _ _)) fun _ _ _ => ?_
    exact .bind (.write _ _) fun _ _ _ => .bind (.write _ _) fun _ _ _ => body
  · exact body

theorem abreast_keywordBlock :
    Abreast n a b Unrelated (keywordBlock a inside) (keywordBlock b inside') := by
  unfold keywordBlock
  refine .bind .closeParagraph fun _ _ _ => .bind (.write _ _) fun _ _ _ => ?_
  refine .bind (.silent (silent_lead _) (silent_lead _)) fun _ _ _ => ?_
  refine .bind (.write _ _) fun _ _ _ => .bind (.inlined (abreast _ _)) fun _ _ _ => ?_
  exact .bind (abreast_childrenInline abreast) fun _ _ _ => .write _ _

theorem abreast_feature : Abreast n a b Unrelated (feature a inside) (feature b inside') := by
  unfold feature
  refine .bind .closeParagraph fun _ _ _ => .bind (.write _ _) fun _ _ _ => ?_
  exact .bind (.blocked (abreast _ _)) fun _ _ _ => .write _ _

theorem abreast_float (class_ : String) :
    Abreast n a b Unrelated (float a inside class_) (float b inside' class_) := by
  unfold float
  exact .bind .closeParagraph fun _ _ _ => .floated class_ _ (abreast _ _)

omit abreast in
theorem abreast_writeCaption (label : Option String) {caption caption' : Walk Unit}
    (abreast : Abreast n a b Unrelated caption caption') :
    Abreast n a b Unrelated (writeCaption a label caption) (writeCaption b label caption') := by
  unfold writeCaption
  refine .bind (abreast_captionTitle label) fun _ _ _ => .bind (.write _ _) fun _ _ _ => ?_
  exact .bind (.inlined abreast) fun _ _ _ => .write _ _

theorem abreast_caption : Abreast n a b Unrelated (caption a inside) (caption b inside') := by
  unfold caption
  dsimp only
  split
  · exact .fail _
  refine .bind (abreast_writeCaption _ (abreast _ _)) fun _ _ _ => ?_
  split
  · refine .bind (abreast _ _) fun _ _ _ => ?_
    split
    · refine .bind (.write _ _) fun _ _ _ => .bind (.inlined (abreast _ _)) fun _ _ _ => ?_
      exact .write _ _
    · exact .pure trivial
  · exact .pure trivial

theorem abreast_table : Abreast n a b Unrelated (table a inside) (table b inside') := by
  unfold table
  refine .bind (.rendering (.refl _)) ?_
  rintro spec _ rfl
  exact .bind .closeParagraph fun _ _ _ => .tabled _ (abreast _ _)

theorem abreast_wideCell : Abreast n a b Unrelated (wideCell inside) (wideCell inside') := by
  unfold wideCell
  refine .bind (.rendering (.refl _)) ?_
  rintro span _ rfl
  exact .bind (.silent (.lay (.openCell span)) (.lay (.openCell span)))
    fun _ _ _ => .inlined (abreast _ _)

theorem abreast_optionText? (owner : Node) (key : String)
    (small : owner.longest ≤ Node.listLongest (node :: rest)) :
    Abreast n a b (fun x y => x.isSome = y.isSome) (optionText? a inside owner key small)
      (optionText? b inside' owner key small) := by
  unfold optionText?
  split
  · exact .fail _
  · exact .pure rfl
  · exact .bind (.asText (abreast _ _)) fun _ _ _ => .pure rfl

omit abreast in
theorem abreast_captionedExample (kin : a.Kin b) (base : String)
    (request : Example.Snippet.Request) {caption caption' : Walk Unit}
    (abreast : Abreast n a b Unrelated caption caption') :
    Abreast n a b Unrelated (captionedExample a base request caption)
      (captionedExample b base request caption') := by
  unfold captionedExample
  have composed : Abreast n a b Eq
      (onDisk (Example.Snippet.compose a.snippetDir a.assets request))
      (onDisk (Example.Snippet.compose b.snippetDir b.assets request)) := by
    cases kin
    exact .onDisk (.mk ..) (Example.Snippet.publishes_compose _ _)
  refine .bind composed fun _ _ _ => .bind .closeParagraph fun _ _ _ => .bind (.write _ _) ?_
  refine fun _ _ _ => .bind (abreast_writeCaption _ abreast) fun _ _ _ => ?_
  exact .bind (.write _ _) fun _ _ _ => .write _ _

theorem abreast_example_ (kin : a.Kin b) :
    Abreast n a b Unrelated (example_ a inside) (example_ b inside') := by
  unfold example_
  refine .bind (.rendering (.refl _)) ?_
  rintro arg _ rfl
  refine .bind (.ofExcept (.refl _)) ?_
  rintro options _ rfl
  refine .bind (.rendering (.refl _)) ?_
  rintro request _ rfl
  split
  · exact .fail _
  · exact abreast_captionedExample kin _ _ (.pure trivial)
  · exact abreast_captionedExample kin _ _ (abreast _ _)

omit abreast in
theorem abreast_fileCell (kin : a.Kin b) (file : String) (caption caption' : Option String) :
    Abreast n a b Unrelated (fileCell a file caption) (fileCell b file caption') := by
  cases kin
  unfold fileCell
  split
  · refine .bind (.onDisk (.mk ..) (Example.Snippet.publishes_output _ _ _ _)) fun _ _ _ => ?_
    exact .pure trivial
  · exact .bind (.onDisk (.mk ..) (Asset.publishes_looking _)) fun _ _ _ => .pure trivial

theorem abreast_codeCell (kin : a.Kin b) (box : Node)
    (small : box.longest ≤ Node.listLongest (node :: rest)) :
    Abreast n a b Unrelated (codeCell a inside box small) (codeCell b inside' box small) := by
  unfold codeCell
  refine .bind (.rendering (.refl _)) ?_
  rintro arg _ rfl
  refine .bind (abreast_optionText? abreast box "caption" small) fun _ _ _ => ?_
  exact abreast_fileCell kin _ _ _

theorem abreast_code (kin : a.Kin b) : Abreast n a b Unrelated (code a inside) (code b inside') := by
  unfold code
  refine .bind (abreast_codeCell abreast kin node _) fun _ _ _ => ?_
  exact .silent (silent_listing _ _) (silent_listing _ _)

theorem abreast_raster (kin : a.Kin b) :
    Abreast n a b Unrelated (raster a inside) (raster b inside') := by
  unfold raster
  split
  · refine .bind (abreast_codeCell abreast kin _ _) fun _ _ _ => ?_
    refine .bind (abreast_codeCell abreast kin _ _) fun _ _ _ => ?_
    exact .silent (silent_listing _ _) (silent_listing _ _)
  · exact .fail _

theorem abreast_outputBox : Abreast n a b Unrelated (outputBox a inside) (outputBox b inside') := by
  unfold outputBox
  refine .bind (abreast_optionText? abreast node "title" _) fun title title' same => ?_
  refine .bind .closeParagraph fun _ _ _ => .bind (.write _ _) fun _ _ _ => ?_
  have body : Abreast n a b Unrelated
      (do inside node.children (shrinks_children node rest); write a.flavor.blockClose)
      (do inside' node.children (shrinks_children node rest); write b.flavor.blockClose) :=
    .bind (abreast _ _) fun _ _ _ => .write _ _
  cases title with
  | none =>
    cases title' with
    | none => exact body
    | some => cases same
  | some title =>
    cases title' with
    | none => cases same
    | some title' => exact .bind (.write _ _) fun _ _ _ => .bind (.write _ _) fun _ _ _ => body

theorem abreast_perform (kin : a.Kin b) (role : Role) :
    Abreast n a b Unrelated (perform a node rest inside role) (perform b node rest inside' role) := by
  cases role with
  | ignored | partialRule | transparent => exact .pure trivial
  | markup m => exact abreast_markup abreast m
  | fixed html quarto => exact .silent (silent_fixed html quarto) (silent_fixed html quarto)
  | heading level => exact abreast_heading abreast level _
  | citation style => exact abreast_citation kin style
  | reference => exact abreast_reference
  | footnote => exact abreast_footnote abreast
  | float class_ => exact abreast_float abreast class_
  | caption => exact abreast_caption abreast
  | graphics => exact abreast_graphics kin
  | drawing => exact abreast_drawing kin
  | table => exact abreast_table abreast
  | wideCell => exact abreast_wideCell abreast
  | rule => exact .silent (.lay .midrule) (.lay .midrule)
  | list => exact abreast_list abreast
  | item => exact abreast_item abreast
  | objectives => exact abreast_objectives abreast
  | abstract_ => exact abreast_abstractBlock abreast
  | keywords => exact abreast_keywordBlock abreast
  | feature => exact abreast_feature abreast
  | equation name => exact .silent (silent_math true _) (silent_math true _)
  | verbatim => exact abreast_verbatim
  | verb => exact abreast_verb kin
  | dirtree => exact abreast_dirtree
  | url => exact abreast_url
  | href => exact abreast_href abreast
  | color => exact abreast_color abreast
  | coloredText => exact abreast_coloredText abreast
  | example_ => exact abreast_example_ abreast kin
  | codeColumns => exact abreast_codeColumns kin
  | code => exact abreast_code abreast kin
  | output format => exact abreast_output kin format
  | outputColumns => exact abreast_outputColumns kin
  | raster => exact abreast_raster abreast kin
  | outputBox => exact abreast_outputBox abreast
  | unknown => exact .record _

theorem abreast_visit (kin : a.Kin b) :
    Abreast n a b Unrelated (visit a node rest inside) (visit b node rest inside') := by
  cases node with
  | text content => exact abreast_text _
  | math display content => exact .silent (silent_math display _) (silent_math display _)
  | group children =>
    have children_ : Abreast n a b Unrelated
        (inlined (inside children (shrinks_children (.group children) rest)))
        (inlined (inside' children (shrinks_children (.group children) rest))) :=
      .inlined (abreast _ _)
    simp only [visit, group]
    split
    · exact .bind .openParagraph fun _ _ _ => children_
    · exact children_
  | command name args => exact abreast_perform abreast kin _
  | environment name args children => exact abreast_perform abreast kin _

end Handlers

theorem abreast_neighbours {n : Nat} {a b : Context} (kin : a.Kin b) (nodes : List Node) :
    Abreast n a b Unrelated (neighbours a nodes) (neighbours b nodes) := by
  induction nodes using Node.shrinks_wf.induction with
  | _ nodes ih =>
    cases nodes with
    | nil =>
      rw [neighbours_nil, neighbours_nil]
      exact .pure trivial
    | cons node rest =>
      rw [neighbours_cons, neighbours_cons]
      have inside (inner : List Node) (smaller : Node.Shrinks inner (node :: rest)) :
          Abreast n a b Unrelated (deeper (neighbours a inner)) (deeper (neighbours b inner)) :=
        .deeper (ih inner smaller)
      refine Abreast.bind (abreast_visit inside kin) fun _ _ _ => ?_
      exact ih _ (shrinks_remaining node rest)

theorem abreast_nodes {n : Nat} {a b : Context} (kin : a.Kin b) (queue : List Node) :
    Abreast n a b Unrelated (nodes a queue) (nodes b queue) :=
  .deeper (abreast_neighbours kin queue)

theorem Context.Kin.refl (ctx : Context) : ctx.Kin ctx :=
  .mk ctx ctx.labels ctx.labels ctx.target ctx.target

theorem course_nodes (ctx : Context) (queue : List Node) (s : State) :
    Course ctx s (nodes ctx queue s).2 :=
  (abreast_nodes (n := 0) (.refl ctx) queue).left s

end Quire.Walk
