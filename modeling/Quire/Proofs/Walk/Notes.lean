import Quire.Asset.Picture
import Quire.Proofs.Walk.Account
import Quire.Walk

/-! The notes of a chapter. -/
namespace Quire.Walk

open Node (shrinks_children)

structure TextTile where
  tile : Example.Tile
  text : tile.body.isText = true

instance : Tells TextTile Example.Cell :=
  ⟨fun cell => Tells.answer cell.tile, fun cell => Tells.texts cell.tile⟩

section Handlers
variable {ctx : Context} {node : Node} {rest : List Node} {inside : Inside node rest}

theorem steady_piece (raw : List Char) : Steady ctx (piece ctx raw) :=
  .bind (.rendering _) fun _ => .modify (.writePiece _ _)

theorem steady_text (raw : String) : Steady ctx (text ctx raw) := by
  unfold text
  refine .look (fun _ => rfl) fun s => ?_
  split
  · refine .forM fun token => ?_
    unfold cellToken
    split
    · exact .bind (.rendering _) fun _ => .modify (.writeCell _)
    · exact .modify fun s => .layTable s _
    · exact .modify fun s => .layTable s _
  split
  · refine .bind (.rendering _) fun text => .modify fun s => ?_
    exact .ite (c := fun s => s.inParagraph || s.inline || !Text.allBlank text) (fun _ => rfl)
      (.write s text) (.refl s)
  · unfold paragraphText
    refine .bind (steady_piece _) fun _ => .forM fun next => ?_
    exact .bind .closeParagraph fun _ => steady_piece next

theorem steady_math (display : Bool) (tex : String) : Steady ctx (math ctx display tex) := by
  unfold math
  refine .look (fun _ => rfl) fun s => ?_
  split
  · exact .bind .openParagraph fun _ => .write _
  split
  · exact .bind .closeParagraph fun _ => .write _
  · exact .bind .openParagraph fun _ => .write _

theorem steady_reference : Steady ctx (reference ctx node) := by
  unfold reference
  refine .bind (.rendering _) fun arg => .bind .openParagraph fun _ => ?_
  split
  · exact .write _
  · exact .bind (.write _) fun _ => .record _

theorem steady_citation (style : CiteStyle) : Steady ctx (citation ctx node style) := by
  unfold citation
  refine .bind (.rendering _) fun keys => .bind (.rendering _) fun entries => ?_
  exact .bind (.rendering _) fun notes => .bind .openParagraph fun _ => .write _

theorem steady_url : Steady ctx (url ctx node) := by
  unfold url
  exact .bind (.rendering _) fun arg => .bind .openParagraph fun _ => .write _

theorem steady_verb : Steady ctx (verb ctx node) := by
  unfold verb
  refine .bind (.rendering _) fun arg => ?_
  split
  · exact .fail _
  · exact .bind .openParagraph fun _ => .write _

theorem steady_headingNumber (level : Level) : Steady ctx (headingNumber ctx level rest) := by
  have looks : headingNumber ctx level rest = (do
      let s ← get
      modify fun t => { t with counters := s.counters.bump level }
      return (labelBehind? rest >>= ctx.labels.get?).getD ((s.counters.bump level).current level)) :=
    rfl
  rw [looks]
  refine .look (fun _ => rfl) fun s => .bind (.modify fun t => ?_) fun _ => .pure _
  exact .aside (fun t => { t with counters := s.counters.bump level }) t fun _ => rfl

theorem steady_lead (text : String) : Steady ctx (lead ctx text) :=
  .bind (.write _) fun _ => .bind (.write _) fun _ => .write _

theorem steady_verbatim : Steady ctx (verbatim ctx node) :=
  .bind (.ofExcept _) fun _ => .bind .closeParagraph fun _ => .write _

theorem steady_dirtree : Steady ctx (dirtree ctx node) :=
  .bind (.rendering _) fun _ => .bind (.rendering _) fun _ => .bind .closeParagraph fun _ => .write _

theorem steady_fixed (html quarto : String) : Steady ctx (fixed ctx html quarto) :=
  .bind .openParagraph fun _ => .write _

theorem steady_captionTitle (label : Option String) : Steady ctx (captionTitle ctx label) := by
  unfold captionTitle
  split
  · exact .pure _
  · split
    · exact .pure _
    · exact .bind (.record _) fun _ => .pure _

theorem steady_graphics : Steady ctx (graphics ctx node) := by
  unfold graphics
  refine .bind (.rendering _) fun arg => .bind .openParagraph fun _ => ?_
  split
  · exact .write _
  · exact .bind (.onDisk _) fun image => .write _

theorem steady_drawing : Steady ctx (drawing ctx node) := by
  unfold drawing
  refine .bind (.modify fun s => .aside (fun s => { s with drawings := s.drawings + 1 }) s
    fun _ => rfl) fun _ => ?_
  refine .look (fun _ => rfl) fun s => .bind (.onDisk _) fun image => ?_
  exact .bind .openParagraph fun _ => .write _

theorem steady_listing (class_ : Option String) (block : Example.Block) :
    Steady ctx (listing ctx class_ block) := by
  unfold listing
  refine .bind .closeParagraph fun _ => ?_
  split
  · exact .write _
  · exact .bind (.write _) fun _ => .bind (.write _) fun _ => .write _

theorem steady_codeColumns : Steady ctx (codeColumns ctx node) := by
  unfold codeColumns
  exact .bind (.rendering _) fun arg => .bind (.onDisk _) fun row => steady_listing none _

theorem steady_output (format : Example.Format) : Steady ctx (output ctx node format) := by
  unfold output
  exact .bind (.rendering _) fun arg => .bind (.onDisk _) fun body => steady_listing none _

theorem steady_outputColumns : Steady ctx (outputColumns ctx node) := by
  unfold outputColumns
  exact .bind (.rendering _) fun arg => .bind (.onDisk _) fun row => steady_listing none _

variable (steady : ∀ nodes smaller, Steady ctx (inside nodes smaller))
include steady

theorem steady_markup (m : Markup) : Steady ctx (markup ctx inside m) := by
  unfold markup
  refine .bind .openParagraph fun _ => .bind (.write _) fun _ => ?_
  exact .bind (.inlined (steady _ _)) fun _ => .write _

theorem carries_argumentText (n : Nat) :
    Carries (Numbered String) ctx [] fun _ => argumentText ctx inside n :=
  .asText (steady _ _)

theorem steady_footnote : Steady ctx (footnote ctx inside) := by
  unfold footnote
  refine .bind (.rendering _) fun _ => ?_
  exact Carries.seq (carries_argumentText steady 0) fun body => .note body

theorem steady_href : Steady ctx (href ctx inside) := by
  unfold href
  refine .bind (.rendering _) fun address => ?_
  refine Carries.seq (carries_argumentText steady 1) fun shown => ?_
  exact .after .openParagraph fun _ => .write fun a text => text.of_single.trim.link address

omit steady in
theorem carries_colored (color : String) (text : Numbered String) :
    Carries (Fixed Unit) ctx [text] fun n => colored ctx color (text n) := by
  refine .of_shown fun a shown => ?_
  obtain ⟨rfl, text, rfl⟩ | solid := shown.of_single.plain_or_solid
  · cases blank : Text.allBlank text with
    | true =>
      simp only [colored, blank, if_true]
      refine .pure (Fixed.mk ()) fun b one => ?_
      rw [(one.of_single.unique (.plain text)).eq_nil]
      exact .nil
    | false =>
      simp only [colored, blank]
      exact .after .openParagraph fun _ => .write fun a shown => shown.of_single.span color
  · simp only [colored, solid]
    exact .after .openParagraph fun _ => .write fun a shown => shown.of_single.span color

theorem steady_color : Steady ctx (color ctx inside) := by
  unfold color
  refine .bind (.rendering _) fun arg => ?_
  exact Carries.seq (.asText (steady _ _)) fun text => carries_colored _ text

theorem steady_coloredText : Steady ctx (coloredText ctx inside) := by
  unfold coloredText
  refine .bind (.rendering _) fun name => ?_
  exact Carries.seq (carries_argumentText steady 1) fun text => carries_colored name text

theorem steady_heading (level : Level) (starred : Bool) :
    Steady ctx (heading ctx inside level starred) := by
  unfold heading
  refine .bind (.rendering _) fun arg => .bind .closeParagraph fun _ => ?_
  have titled (opening closing : String) : Steady ctx (do
      write opening
      inlined (argument inside 0)
      write closing) :=
    .bind (.write _) fun _ => .bind (.inlined (steady _ _)) fun _ => .write _
  dsimp only
  split
  · exact .bind (.pure "") fun number => titled _ _
  · exact .bind (steady_headingNumber level) fun number => titled _ _

theorem steady_list : Steady ctx (list ctx inside) := by
  unfold list
  refine .bind .closeParagraph fun _ => .bind (.write _) fun _ => ?_
  refine .bind (.within (fun s => ?_) (fun _ _ => rfl) (fun _ t => ?_) (steady _ _)) fun _ => .write _
  · exact .aside (fun s => { s with
      lists := (ListKind.ofEnvironment? node.name).getD .itemize :: s.lists }) s fun _ => rfl
  · exact .aside (fun t => { t with lists := t.lists.tail }) t fun _ => rfl

theorem steady_childrenInline : Steady ctx (childrenInline inside) := .inlined (steady _ _)

theorem carries_itemTitle? :
    Carries (Option (Numbered String)) ctx [] fun _ => itemTitle? ctx inside := by
  unfold itemTitle?
  split
  · exact .fail _
  · exact .pure none fun b none_ => none_
  · exact .seq (.asText (steady _ _)) fun title =>
      .pure (some (trimmed title)) fun b one => .single one.of_single.trim

theorem steady_item : Steady ctx (item ctx inside) := by
  unfold item
  refine .look (fun _ => rfl) fun s => Carries.seq (carries_itemTitle? steady) fun title => ?_
  refine .seq (.write fun a shown => .itemOpen _ title _ shown) fun _ => ?_
  exact Steady.bind (steady_childrenInline steady) fun _ => .write _

theorem steady_objectives : Steady ctx (objectives ctx inside) := by
  unfold objectives
  refine .bind .closeParagraph fun _ => .bind (.write _) fun _ => ?_
  exact .bind (steady_lead _) fun _ => .bind (steady_list steady) fun _ => .write _

theorem steady_abstractBlock : Steady ctx (abstractBlock ctx inside) := by
  unfold abstractBlock
  refine .bind .closeParagraph fun _ => .bind (.write _) fun _ => ?_
  have body : Steady ctx (do
      childrenInline inside
      write ctx.flavor.blockClose) :=
    .bind (steady_childrenInline steady) fun _ => .write _
  dsimp only
  split
  · refine .bind (.write _) fun _ => .bind (.inlined (steady _ _)) fun _ => ?_
    exact .bind (.write _) fun _ => .bind (.write _) fun _ => body
  · exact body

theorem steady_keywordBlock : Steady ctx (keywordBlock ctx inside) := by
  unfold keywordBlock
  refine .bind .closeParagraph fun _ => .bind (.write _) fun _ => .bind (steady_lead _) fun _ => ?_
  refine .bind (.write _) fun _ => .bind (.inlined (steady _ _)) fun _ => ?_
  exact .bind (steady_childrenInline steady) fun _ => .write _

theorem steady_feature : Steady ctx (feature ctx inside) := by
  unfold feature
  refine .bind .closeParagraph fun _ => .bind (.write _) fun _ => ?_
  exact .bind (.blocked (steady _ _)) fun _ => .write _

theorem steady_float (class_ : String) : Steady ctx (float ctx inside class_) := by
  unfold float
  refine .bind .closeParagraph fun _ => .within (fun s => ?_) (fun _ _ => rfl) (fun s t => ?_)
    (steady _ _)
  · exact (Extends.write s _).trans
      (.aside (fun s => { s with floatLabel := floatLabel? node.children }) _ fun _ => rfl)
  · exact (Extends.write t _).trans
      (.aside (fun t => { t with floatLabel := s.floatLabel }) _ fun _ => rfl)

omit steady in
theorem steady_writeCaption (label : Option String) {caption : Walk Unit}
    (steady : Steady ctx caption) : Steady ctx (writeCaption ctx label caption) := by
  unfold writeCaption
  refine .bind (steady_captionTitle label) fun (anchor, title) => .bind (.write _) fun _ => ?_
  exact .bind (.inlined steady) fun _ => .write _

theorem steady_caption : Steady ctx (caption ctx inside) := by
  unfold caption
  dsimp only
  split
  · exact .fail _
  refine .bind (steady_writeCaption _ (steady _ _)) fun _ => ?_
  split
  · refine .bind (steady _ _) fun _ => ?_
    split
    · exact .bind (.write _) fun _ => .bind (.inlined (steady _ _)) fun _ => .write _
    · exact .pure ()
  · exact .pure ()

theorem steady_table : Steady ctx (table ctx inside) := by
  unfold table
  refine .bind (.rendering _) fun spec => .bind .closeParagraph fun _ => ?_
  exact .within (.startTable _) (fun _ _ => rfl) (fun s t => .finishTable _ t) (steady _ _)

theorem steady_wideCell : Steady ctx (wideCell inside) := by
  unfold wideCell
  refine .bind (.rendering _) fun span => .bind (.modify fun s => .layTable s _) fun _ => ?_
  exact .inlined (steady _ _)

theorem carries_optionText? (owner : Node) (key : String)
    (small : owner.longest ≤ Node.listLongest (node :: rest)) :
    Carries (Option (Numbered String)) ctx [] fun _ => optionText? ctx inside owner key small := by
  unfold optionText?
  split
  · exact .fail _
  · exact .pure none fun b none_ => none_
  · exact .seq (.asText (steady _ _)) fun text =>
      .pure (some (trimmed text)) fun b one => .single one.of_single.trim

omit steady in
theorem steady_captionedExample (base : String) (request : Example.Snippet.Request)
    {caption : Walk Unit} (steady : Steady ctx caption) :
    Steady ctx (captionedExample ctx base request caption) := by
  unfold captionedExample
  refine .bind (.onDisk _) fun block => .bind .closeParagraph fun _ => .bind (.write _) fun _ => ?_
  exact .bind (steady_writeCaption _ steady) fun _ => .bind (.write _) fun _ => .write _

theorem steady_example_ : Steady ctx (example_ ctx inside) := by
  unfold example_
  refine .bind (.rendering _) fun arg => .bind (.ofExcept _) fun options => ?_
  refine .bind (.rendering _) fun request => ?_
  split
  · exact .fail _
  · exact steady_captionedExample _ _ (.pure ())
  · exact steady_captionedExample _ _ (steady _ _)

omit steady in
/-- Output that was saved as plain text is shown as text. -/
theorem isText_output {dir stem : String} (store : Asset.Store) {disk : Disk} {body : Example.Body}
    (found : (Example.Snippet.output dir store stem .plain disk).1 = .ok body) :
    body.isText = true := by
  simp only [Example.Snippet.output] at found
  split at found
  · cases found
    rfl
  · cases found

omit steady in
theorem carries_fileCell (file : String) (caption : Option (Numbered String)) :
    Carries TextTile ctx caption.toList fun n => fileCell ctx file (caption.map (· n)) := by
  unfold fileCell
  split
  next stem _ =>
    have text (s : State) (body : Example.Body) (u : State)
        (ran : onDisk (Example.Snippet.output ctx.snippetDir ctx.assets stem .plain) s =
          (.ok body, u)) : body.isText = true :=
      isText_output ctx.assets (Prod.mk.inj ran).1
    exact .after_of (.onDisk _) text fun body text =>
      .pure (TextTile.mk ⟨caption, none, body⟩ text) fun b shown => shown
  next =>
    exact .after (.onDisk _) fun lines =>
      .pure (TextTile.mk ⟨caption, Lang.ofFile? file, .code (lines.map some)⟩ rfl) fun b shown => shown

theorem carries_codeCell (box : Node) (small : box.longest ≤ Node.listLongest (node :: rest)) :
    Carries TextTile ctx [] fun _ => codeCell ctx inside box small := by
  unfold codeCell
  refine .after (.rendering _) fun arg => .seq (carries_optionText? steady box "caption" small) ?_
  exact fun caption => carries_fileCell _ caption

omit steady in
/-- A listing of one row writes the captions of its cells. -/
theorem carries_listing (class_ : Option String) (row : List TextTile) :
    Carries (Fixed Unit) ctx (Example.captions (row.map (·.tile))) fun n =>
      listing ctx class_ (Example.addRow [] ((row.map (·.tile)).map (·.cell n))) := by
  have text : ∀ tile ∈ row.map (·.tile), tile.body.isText = true := by
    rintro _ member
    obtain ⟨tile, -, rfl⟩ := List.mem_map.mp member
    exact tile.text
  unfold listing
  refine .after .closeParagraph fun _ => ?_
  have shown (a : List Nat)
      (captions : ShowsAll ctx.target a (Example.captions (row.map (·.tile)))) :=
    Shows.example_ text captions
  cases class_ with
  | none => exact .write shown
  | some class_ => exact .after (.write _) fun _ => .seq (.write shown) fun _ => Steady.write _

theorem steady_code : Steady ctx (code ctx inside) := by
  unfold code
  refine Carries.seq (carries_codeCell steady node _) fun cell => ?_
  have listing_ := @carries_listing ctx none [cell]
  have captions_eq : Example.captions [cell.tile] = Tells.texts cell := List.append_nil _
  rwa [List.map_singleton, captions_eq] at listing_

theorem steady_raster : Steady ctx (raster ctx inside) := by
  unfold raster
  split
  next left right found =>
    refine Carries.seq (carries_codeCell steady left _) fun a => ?_
    refine Carries.bind (carries_codeCell steady right _) fun b => ?_
    have listing_ := @carries_listing ctx (some "code-raster") [a, b]
    have captions_eq : Example.captions [a.tile, b.tile] = Tells.texts a ++ Tells.texts b := by
      rw [Example.captions, List.flatMap_cons, List.flatMap_singleton]
      rfl
    rwa [List.map_cons, List.map_singleton, captions_eq] at listing_
  next => exact .fail _

theorem steady_outputBox : Steady ctx (outputBox ctx inside) := by
  unfold outputBox
  refine Carries.seq (carries_optionText? steady node "title" _) fun title => ?_
  refine .after .closeParagraph fun _ => .after (.write _) fun _ => ?_
  have body : Steady ctx (do
      inside node.children (shrinks_children node rest)
      write ctx.flavor.blockClose) :=
    .bind (steady _ _) fun _ => .write _
  cases title with
  | none => exact body
  | some title =>
    refine .seq (.write fun a shown => ?_) fun _ => Steady.bind (.write _) fun _ => body
    exact shown.of_single.captionOpen ""

theorem steady_perform (role : Role) : Steady ctx (perform ctx node rest inside role) := by
  cases role with
  | ignored | partialRule | transparent => exact .pure ()
  | markup m => exact steady_markup steady m
  | fixed html quarto => exact steady_fixed html quarto
  | heading level => exact steady_heading steady level _
  | citation style => exact steady_citation style
  | reference => exact steady_reference
  | footnote => exact steady_footnote steady
  | float class_ => exact steady_float steady class_
  | caption => exact steady_caption steady
  | graphics => exact steady_graphics
  | drawing => exact steady_drawing
  | table => exact steady_table steady
  | wideCell => exact steady_wideCell steady
  | rule => exact .modify fun s => .layTable s _
  | list => exact steady_list steady
  | item => exact steady_item steady
  | objectives => exact steady_objectives steady
  | abstract_ => exact steady_abstractBlock steady
  | keywords => exact steady_keywordBlock steady
  | feature => exact steady_feature steady
  | equation name => exact steady_math true _
  | verbatim => exact steady_verbatim
  | verb => exact steady_verb
  | dirtree => exact steady_dirtree
  | url => exact steady_url
  | href => exact steady_href steady
  | color => exact steady_color steady
  | coloredText => exact steady_coloredText steady
  | example_ => exact steady_example_ steady
  | codeColumns => exact steady_codeColumns
  | code => exact steady_code steady
  | output format => exact steady_output format
  | outputColumns => exact steady_outputColumns
  | raster => exact steady_raster steady
  | outputBox => exact steady_outputBox steady
  | unknown => exact .record _

theorem steady_visit : Steady ctx (visit ctx node rest inside) := by
  cases node with
  | text content => exact steady_text _
  | math display content => exact steady_math display content
  | group children =>
    have children_ : Steady ctx (inlined (inside children (shrinks_children (.group children) rest))) :=
      .inlined (steady _ _)
    simp only [visit, group]
    split
    · exact Steady.bind .openParagraph fun _ => children_
    · exact children_
  | command name args => exact steady_perform steady _
  | environment name args children => exact steady_perform steady _

end Handlers

/-- A walk keeps the account, whatever the nodes. -/
theorem steady_neighbours (ctx : Context) (nodes : List Node) :
    Steady ctx (neighbours ctx nodes) := by
  -- Inner lists are walked before the neighbours, and both are smaller than the list.
  induction nodes using Node.shrinks_wf.induction with
  | _ nodes ih =>
    cases nodes with
    | nil =>
      rw [neighbours_nil]
      exact .pure ()
    | cons node rest =>
      rw [neighbours_cons]
      refine Steady.bind (steady_visit fun inner smaller => .deeper (ih inner smaller)) fun _ => ?_
      exact ih _ (shrinks_remaining node rest)

/-- What is left open is closed behind the walk, and the markers stay. -/
theorem shows_finish {ctx : Context} {walked : Numbered State} {notes : List (Numbered String)}
    {numbers : List Nat} (shown : ShowsAll ctx.target numbers ((fun n => (walked n).out) :: notes))
    (settled : Settled walked) (notes_eq : ∀ n, (walked n).footnotes = notes.map (· n)) :
    Shows ctx.target numbers fun n => ((walked n).finish ctx).body := by
  have closed := (Extends.closeParagraph (t := ctx.target) ctx.flavor walked).trans
    (.finishTable none _)
  cases shown with
  | cons out notes_ =>
    refine (closed.shows_ settled _ out).append ?_
    simp only [closed.notes_eq, notes_eq]
    by_cases none_ : notes = []
    · subst none_
      cases notes_
      exact .plain ""
    · have some_ (n : Nat) : (notes.map (· n)).isEmpty = false := by simpa using none_
      simp only [some_]
      exact .footnotes notes_

/-- When a chapter is rendered, the markers are numbered from one on, and the notes at its end are the
trimmed bodies of the marked notes in the order of these numbers. Each marker stands once, in the
text or in a note, and no marker stands anywhere else: had other notes come before the chapter, its
text and its notes would differ in the numbers of these markers alone. -/
theorem notes_of_render {ctx : Context} {disk disk' : Disk} {chapter : List Node}
    {rendered : Rendered} (ok : render ctx disk chapter = (.ok rendered, disk')) :
    ∃ walked : Numbered State,
      (∀ n, nodes ctx chapter { State.start ctx disk with footnoteBase := n } =
        (.ok (), walked n)) ∧
      rendered = (walked 0).finish ctx ∧
      (walked 0).footnotes = (walked 0).marks.map (fun mark => Text.trim mark.body) ∧
      (walked 0).marks.map (·.number) = List.range' 1 (walked 0).marks.length ∧
      ∃ (notes : List (Numbered String)) (numbers : List Nat),
        (∀ n, (walked n).footnotes = notes.map (· n)) ∧
        numbers.Perm (List.range' 1 (walked 0).marks.length) ∧
        ShowsAll ctx.target numbers ((fun n => (walked n).out) :: notes) ∧
        Shows ctx.target numbers (fun n => ((walked n).finish ctx).body) ∧
        ∀ others, Shows ctx.target others (fun n => ((walked n).finish ctx).body) →
          others.Perm numbers := by
  rw [render_eq] at ok
  let started : Numbered State := fun n => { State.start ctx disk with footnoteBase := n }
  have start : Account ctx [] [] [] started :=
    ⟨fun n => rfl, fun n => rfl, fun n => rfl, fun n => rfl, [], .single (.plain ""), .refl _⟩
  have steady : Steady ctx (nodes ctx chapter) := .deeper (steady_neighbours ctx chapter)
  split at ok
  next s ran =>
    obtain ⟨_, walked, made, all, account⟩ := steady [] [] [] started 0 () s start ran
    obtain rfl : s = walked 0 := (Prod.mk.inj (ran.symm.trans (all 0))).2
    obtain ⟨ok, -⟩ := Prod.mk.inj ok
    have marks_eq := account.marks_eq 0
    have length_eq : (walked 0).marks.length = made.length := by rw [marks_eq]; simp
    refine ⟨walked, all, (Except.ok.inj ok).symm, ?_, ?_, ?_⟩
    · rw [account.notes_eq, marks_eq]
      exact List.ext_getElem (by simp) (by simp [trimmed])
    · rw [length_eq, marks_eq]
      exact List.ext_getElem (by simp) (by simp [Nat.add_comm])
    · obtain ⟨numbers, shown, same⟩ := account.shown
      have body := shows_finish shown account.settled fun n => by
        rw [account.notes_eq, List.map_map]
        rfl
      rw [length_eq]
      refine ⟨made.map trimmed, numbers, fun n => ?_, same, shown, body, fun others other =>
        other.unique body⟩
      rw [account.notes_eq, List.map_map]
      rfl
  next => cases ok

/-- A note in a note, and a note in the text of a link: the inner note is the first. -/
theorem notes_of_render_of_nested :
    let ctx (target : Target) : Context :=
      ⟨.empty, .empty, [], "", ⟨"", "", 0, 0, .offline⟩, target, 1⟩
    let chapter : List Node := [
      .command "footnote" [.mk .required
        [.text "b", .command "footnote" [.mk .required [.text "c"] "c"]] "b\\footnote\x7bc\x7d"],
      .command "href" [.mk .required [.text "u"] "u", .mk .required
        [.command "footnote" [.mk .required [.text "d"] "d"]] "\\footnote\x7bd\x7d"]]
    let holds (target : Target) : Prop :=
      ∃ (rendered : Rendered) (disk' : Disk) (walked : Numbered State) (numbers : List Nat),
        render (ctx target) .empty chapter = (.ok rendered, disk') ∧
        rendered = (walked 0).finish (ctx target) ∧
        (walked 0).footnotes = ["c", "b" ++ target.flavor.footnoteMarker 1, "d"] ∧
        numbers.Perm [1, 2, 3] ∧
        Shows target numbers fun n => ((walked n).finish (ctx target)).body
    holds .html ∧ holds .quarto := by
  intro ctx chapter holds
  have each (target : Target) : holds target := by
    have marks : (nodes (ctx target) chapter (.start (ctx target) .empty)).2.marks =
        [⟨1, "c"⟩, ⟨2, "b" ++ target.flavor.footnoteMarker 1⟩, ⟨3, "d"⟩] := by
      cases target <;> decide +kernel
    have trims : Text.trim ("b" ++ target.flavor.footnoteMarker 1) =
        "b" ++ target.flavor.footnoteMarker 1 := by
      cases target <;> decide +kernel
    have answers : (render (ctx target) .empty chapter).1.isOk = true := by
      cases target <;> decide +kernel
    cases ran : render (ctx target) .empty chapter with
    | mk result disk' =>
      cases result with
      | error fault =>
        rw [ran] at answers
        cases answers
      | ok rendered =>
        obtain ⟨walked, all, finished, notes, -, -, numbers, -, same, -, shown, -⟩ :=
          notes_of_render ran
        have walked_eq : (walked 0).marks = _ :=
          (congrArg (·.2.marks) (all 0)).symm.trans marks
        rw [walked_eq] at same notes
        refine ⟨rendered, disk', walked, numbers, ran, finished, ?_, same, shown⟩
        have c : Text.trim "c" = "c" := by decide
        have d : Text.trim "d" = "d" := by decide
        simp only [notes, List.map_cons, List.map_nil, c, trims, d]
  exact ⟨each .html, each .quarto⟩

end Quire.Walk
