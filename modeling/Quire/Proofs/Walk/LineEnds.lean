import Quire.Proofs.Verbs
import Quire.Proofs.Walk.Rewalk

/-! Rendering a source whose lines end in carriage returns too. A line of blanks parts paragraphs
only where line feeds alone end the lines, so the page has the same paragraphs as without the
returns where no paragraph holds such a line. -/
namespace Quire

namespace Walk

open Text (SameLines Feeds returned LineFree)
open Example (Cell Block)

section Listings

variable {ctx : Context} {place : Place} {node : Node} {rest rest' : List Node}

inductive Recaptioned : Cell → Cell → Prop
  | mk {caption caption' : Option String} (lang : Option Lang) (body : Example.Body)
    (same : Option.Rel SameLines caption caption') (shown : ∀ image, body ≠ .image image) :
    Recaptioned ⟨caption, lang, body⟩ ⟨caption', lang, body⟩

theorem sameLines_caption {caption caption' : Option String}
    (same : Option.Rel SameLines caption caption') :
    SameLines (Html.caption caption) (Html.caption caption') := by
  cases same with
  | none => exact .refl _
  | some same => exact .join (.cons (.refl _) (.cons same (.cons (.refl _) .nil)))

theorem sameLines_cell {cell cell' : Cell} (recaptioned : Recaptioned cell cell') :
    SameLines (Html.cell cell) (Html.cell cell') := by
  obtain ⟨lang, body, same, shown⟩ := recaptioned
  have captioned (front opening inside back : String) :=
    ((((SameLines.refl front).append (sameLines_caption same)).append (.refl opening)).append
      (.refl inside)).append (.refl back)
  cases body with
  | code lines => exact captioned _ _ _ _
  | text content => exact captioned _ _ _ _
  | image image => exact absurd rfl (shown image)
  | html content => exact .refl _

theorem recaptioned_level {row row' : List Cell} (each : List.Forall₂ Recaptioned row row') :
    List.Forall₂ Recaptioned (Example.level row) (Example.level row') := by
  cases each with
  | nil => exact .nil
  | cons first more =>
    cases more with
    | nil =>
      obtain ⟨lang, body, same, shown⟩ := first
      have kept := List.Forall₂.cons (Recaptioned.mk lang body same shown) .nil
      cases body <;> exact kept
    | cons second more =>
      cases more with
      | nil =>
        obtain ⟨lang, body, same, shown⟩ := first
        obtain ⟨lang', body', same', shown'⟩ := second
        have kept := List.Forall₂.cons (Recaptioned.mk lang body same shown)
          (.cons (Recaptioned.mk lang' body' same' shown') .nil)
        have filled (a b : List (Option String)) :=
          List.Forall₂.cons (Recaptioned.mk lang (.code a) same nofun)
            (.cons (Recaptioned.mk lang' (.code b) same' nofun) .nil)
        cases body with
        | code a =>
          cases body' with
          | code b => exact filled _ _
          | text | image | html => exact kept
        | text | image | html => exact kept
      | cons third more =>
        obtain ⟨lang, body, same, shown⟩ := first
        obtain ⟨lang', body', same', shown'⟩ := second
        have kept := List.Forall₂.cons (Recaptioned.mk lang body same shown)
          (.cons (Recaptioned.mk lang' body' same' shown') (.cons third more))
        cases body <;> cases body' <;> exact kept

theorem sameLines_addRow {row row' : List Cell} (each : List.Forall₂ Recaptioned row row') :
    SameLines (Html.flavor.example_ (Example.addRow [] row))
      (Html.flavor.example_ (Example.addRow [] row')) := by
  have cells := recaptioned_level each
  have length := cells.length_eq
  have written : SameLines (Html.row (Example.level row)) (Html.row (Example.level row')) := by
    rw [Html.row, Html.row, length]
    refine .join (.cons (.refl _) (.cons (.refl _) (.cons (.refl _) (.cons (.join ?_) (.cons (.refl _) .nil)))))
    rw [List.forall₂_map_left_iff, List.forall₂_map_right_iff]
    exact cells.imp fun _ _ => sameLines_cell
  cases each with
  | nil => exact .refl _
  | cons first more => exact .join (.cons written .nil)

theorem follows_listing (class_ : Option String) {block block' : Block}
    (same : SameLines (ctx.flavor.example_ block) (ctx.flavor.example_ block')) :
    Follows place Unrelated (listing ctx class_ block) (listing ctx class_ block') := by
  unfold listing
  refine .andThen .closeParagraph ?_
  cases class_ with
  | none => exact .write same
  | some class_ => exact .andThen (.write (.refl _)) (.andThen (.write same) (.write (.refl _)))

theorem optionText?_below {owner : Node} {key : String}
    (small : owner.longest ≤ Node.listLongest (node :: rest)) :
    optionText? ctx (below ctx node rest) owner key small =
      match owner.optionNodes? key with
      | .error e => fail e
      | .ok none => pure none
      | .ok (some inner) => do
        let text ← asText ctx (nodes ctx inner)
        return some (Text.trim text) := by
  unfold optionText?
  split <;> simp only [*]
  rfl

theorem follows_optionText? {owner : Node} {key : String}
    (small : owner.longest ≤ Node.listLongest (node :: rest))
    (small' : owner.withReturns.longest ≤ Node.listLongest (node.withReturns :: rest'))
    (line : owner.OptionsOnLine)
    (inside : ∀ inner, owner.optionNodes? key = .ok (some inner) → Rewalks ctx .text inner) :
    Follows place (Option.Rel SameLines) (optionText? ctx (below ctx node rest) owner key small)
      (optionText? ctx (below ctx node.withReturns rest') owner.withReturns key small') := by
  rw [optionText?_below, optionText?_below]
  match found : owner.optionNodes? key with
  | .error e => exact .fail _
  | .ok none =>
    rw [(Node.optionNodes?_withReturns line found).1]
    exact .pure .none
  | .ok (some inner) =>
    obtain ⟨found', plain⟩ := Node.optionNodes?_withReturns line found
    have walked := inside inner found
    rw [Rewalks, plain inner rfl] at walked
    rw [found']
    exact .bind (.asText walked) fun _ _ same => .pure (.some same.trim)

theorem follows_codeColumns (line : TextsOnLine node) :
    Follows place Unrelated (codeColumns ctx node) (codeColumns ctx node.withReturns) := by
  unfold codeColumns
  refine .bind follows_onlyArg ?_
  rintro arg _ ⟨only, rfl⟩
  rw [text_onlyArg line only]
  refine .bind (.onDisk _) ?_
  rintro row _ rfl
  exact follows_listing none (.refl _)

theorem follows_output (format : Example.Format) (line : TextsOnLine node) :
    Follows place Unrelated (output ctx node format) (output ctx node.withReturns format) := by
  unfold output
  refine .bind follows_onlyArg ?_
  rintro arg _ ⟨only, rfl⟩
  rw [text_onlyArg line only]
  refine .bind (.onDisk _) ?_
  rintro body _ rfl
  exact follows_listing none (.refl _)

theorem follows_outputColumns (line : TextsOnLine node) :
    Follows place Unrelated (outputColumns ctx node) (outputColumns ctx node.withReturns) := by
  unfold outputColumns
  refine .bind follows_onlyArg ?_
  rintro arg _ ⟨only, rfl⟩
  rw [text_onlyArg line only]
  refine .bind (.onDisk _) ?_
  rintro row _ rfl
  exact follows_listing none (.refl _)

/-- Output that was saved as text is no image. -/
theorem output_plain {dir stem : String} {store : Asset.Store} {s s' : State} {body : Example.Body}
    (ran : onDisk (Example.Snippet.output dir store stem .plain) s = (.ok body, s')) :
    ∀ image, body ≠ .image image := by
  obtain ⟨answered, -⟩ := Prod.mk.inj ran
  dsimp only at answered
  split at answered
  · cases answered
    rintro image ⟨⟩
  · cases answered

theorem follows_fileCell (file : String) {caption caption' : Option String}
    (same : Option.Rel SameLines caption caption') :
    Follows place Recaptioned (fileCell ctx file caption) (fileCell ctx file caption') := by
  unfold fileCell
  split
  · refine .bind ((Follows.onDisk _).answering fun _ _ _ => output_plain) ?_
    rintro body _ ⟨rfl, shown⟩
    exact .pure (.mk none body same shown)
  · refine .bind (.onDisk _) ?_
    rintro lines _ rfl
    exact .pure (.mk _ _ same nofun)

theorem follows_codeCell {box : Node} (small : box.longest ≤ Node.listLongest (node :: rest))
    (small' : box.withReturns.longest ≤ Node.listLongest (node.withReturns :: rest'))
    (line : TextsOnLine box) (options : box.OptionsOnLine)
    (inside : ∀ inner, box.optionNodes? "caption" = .ok (some inner) → Rewalks ctx .text inner) :
    Follows place Recaptioned (codeCell ctx (below ctx node rest) box small)
      (codeCell ctx (below ctx node.withReturns rest') box.withReturns small') := by
  unfold codeCell
  refine .bind follows_onlyArg ?_
  rintro arg _ ⟨only, rfl⟩
  rw [text_onlyArg line only]
  exact .bind (follows_optionText? small small' options inside) fun _ _ same =>
    follows_fileCell _ same

theorem follows_code (html : ctx.target = .html) (line : TextsOnLine node)
    (options : node.OptionsOnLine)
    (inside : ∀ inner, node.optionNodes? "caption" = .ok (some inner) → Rewalks ctx .text inner) :
    Follows place Unrelated (code ctx (below ctx node rest))
      (code ctx (below ctx node.withReturns rest')) := by
  unfold code
  refine .bind (follows_codeCell _ _ line options inside) fun cell cell' same => ?_
  refine follows_listing none ?_
  rw [flavor_html html]
  exact sameLines_addRow (.cons same .nil)

theorem boxes_withReturns (node : Node) :
    boxes node.withReturns = (boxes node).map Node.withReturns := by
  rw [boxes, Node.children_withReturns, List.filter_map, boxes]
  congr 2
  funext child
  simp

theorem follows_raster (html : ctx.target = .html)
    (line : ∀ box ∈ boxes node, TextsOnLine box) (options : ∀ box ∈ boxes node, box.OptionsOnLine)
    (inside : ∀ box ∈ boxes node, ∀ inner, box.optionNodes? "caption" = .ok (some inner) →
      Rewalks ctx .text inner) :
    Follows place Unrelated (raster ctx (below ctx node rest))
      (raster ctx (below ctx node.withReturns rest')) := by
  have found' := boxes_withReturns node
  unfold raster
  split
  next left right found =>
    rw [found] at found' line options inside
    have first : left ∈ [left, right] := List.mem_cons_self
    have second : right ∈ [left, right] := List.mem_cons_of_mem _ List.mem_cons_self
    split
    next left' right' again =>
      obtain ⟨rfl, rfl⟩ : left' = left.withReturns ∧ right' = right.withReturns := by
        simpa using again.symm.trans found'
      refine .bind (follows_codeCell _ _ (line _ first) (options _ first) (inside _ first))
        fun a a' same => ?_
      refine .bind (follows_codeCell _ _ (line _ second) (options _ second) (inside _ second))
        fun b b' same' => ?_
      refine follows_listing _ ?_
      rw [flavor_html html]
      exact sameLines_addRow (.cons same (.cons same' .nil))
    next other => exact absurd found' (other _ _)
  next => exact .fail _

theorem sameLines_captionOpen (anchor : String) {title title' : String}
    (same : SameLines title title') :
    SameLines (Html.captionOpen anchor title) (Html.captionOpen anchor title') := by
  have empty : title'.isEmpty = title.isEmpty := by
    rw [Bool.eq_iff_iff, String.isEmpty_iff, String.isEmpty_iff, ← String.toList_eq_nil_iff,
      ← String.toList_eq_nil_iff]
    exact same.nil_iff.symm
  unfold Html.captionOpen
  rw [empty]
  refine SameLines.append (.refl _) ?_
  split
  · exact .refl _
  · exact ((SameLines.refl _).append same).append (.refl _)

theorem follows_outputBox (html : ctx.target = .html) (options : node.OptionsOnLine)
    (title : ∀ inner, node.optionNodes? "title" = .ok (some inner) → Rewalks ctx .text inner)
    (inside : Rewalks ctx place node.children) :
    Follows place Unrelated (outputBox ctx (below ctx node rest))
      (outputBox ctx (below ctx node.withReturns rest')) := by
  unfold outputBox
  rw [flavor_html html]
  refine .bind (follows_optionText? _ _ options title) fun title title' same => ?_
  refine .andThen .closeParagraph (.andThen (.write (.refl _)) ?_)
  have body : Follows place Unrelated
      (do nodes ctx node.children; write Html.flavor.blockClose)
      (do nodes ctx node.withReturns.children; write Html.flavor.blockClose) :=
    .andThen (follows_children inside) (.write (.refl _))
  cases same with
  | none => exact body
  | some same =>
    exact .andThen (.write (sameLines_captionOpen "" same)) (.andThen (.write (.refl _)) body)

theorem follows_captionedExample (base : String) (request : Example.Snippet.Request)
    {text text' : Walk Unit} (inside : Follows place.inlined Unrelated text text') :
    Follows place Unrelated (captionedExample ctx base request text)
      (captionedExample ctx base request text') := by
  unfold captionedExample
  refine .bind (.onDisk _) ?_
  rintro block _ rfl
  exact .andThen .closeParagraph <| .andThen (.write (.refl _)) <|
    .andThen (follows_writeCaption _ inside) (.andThen (.write (.refl _)) (.write (.refl _)))

theorem follows_example (line : TextsOnLine node) (options : node.OptionsOnLine)
    (inside : ∀ inner, node.optionNodes? "caption" = .ok (some inner) →
      Rewalks ctx place.inlined inner) :
    Follows place Unrelated (example_ ctx (below ctx node rest))
      (example_ ctx (below ctx node.withReturns rest')) := by
  unfold example_
  refine .bind follows_onlyArg ?_
  rintro arg _ ⟨only, rfl⟩
  rw [text_onlyArg line only]
  refine .bind (p := Eq) (.ofExcept fun found read =>
    ⟨found, Node.options_withReturns options read, rfl⟩) ?_
  rintro found _ rfl
  refine .bind (p := Eq) (.rendering fun request asked => ⟨request, asked, rfl⟩) ?_
  rintro request _ rfl
  split
  next => exact .fail _
  next none_ =>
    have none' := (Node.optionNodes?_withReturns options none_).1
    split
    next => cases none'.symm.trans ‹_›
    next => exact follows_captionedExample _ _ (.pure trivial)
    next => cases none'.symm.trans ‹_›
  next inner some_ =>
    obtain ⟨some', plain⟩ := Node.optionNodes?_withReturns options some_
    have walked := inside inner some_
    rw [Rewalks, plain inner rfl] at walked
    split
    next => cases some'.symm.trans ‹_›
    next => cases some'.symm.trans ‹_›
    next =>
      cases some'.symm.trans ‹_›
      exact follows_captionedExample _ _ walked

end Listings

section Texts

variable {ctx : Context} {place : Place} {s t : State} {raw : String}

namespace Twins

variable {text text' : String}

theorem writePiece (twins : Twins s t) (same : SameLines text text') :
    Twins (writePiece Html.flavor text s) (writePiece Html.flavor text' t) := by
  have inParagraph_eq : t.inParagraph = s.inParagraph := by
    cases twins
    rfl
  unfold Walk.writePiece
  rw [← same.allBlank_eq, inParagraph_eq]
  split
  · split
    · exact twins.write same
    · exact twins
  split
  · exact twins.write same
  · exact twins.openParagraph.write same.trimStart

theorem writeCell (twins : Twins s t) (same : SameLines text text') :
    Twins (writeCell text s) (writeCell text' t) := by
  have table_eq : t.table = s.table := by
    cases twins
    rfl
  unfold Walk.writeCell
  rw [← same.allBlank_eq, table_eq]
  split
  · exact twins
  · exact (twins.layTable _).write same

end Twins

theorem place_writePiece (text : String) : (writePiece Html.flavor text s).place = s.place := by
  have opened := place_of_bearing (@bearing_openParagraph Html.flavor s)
  unfold writePiece
  split
  · split <;> rfl
  split
  · rfl
  · exact opened

theorem place_writeCell (text : String) : (writeCell text s).place = s.place := by
  have laid := place_of_bearing (bearing_layTable (·.ensureCell) s)
  unfold writeCell
  split
  · rfl
  · exact laid

/-- Text that is converted is converted with its carriage returns. -/
theorem follows_normalize : Follows place SameLines (rendering (Prose.normalize .html raw))
    (rendering (Prose.normalize .html (Text.withReturns raw))) :=
  .rendering fun text normalized =>
    ⟨_, Prose.normalize_withReturns normalized, .withReturns text⟩

theorem follows_cellToken (token : Table.CellToken) :
    Follows place Unrelated (cellToken token) (cellToken token.withReturns) := by
  cases token with
  | text raw =>
    refine .bind follows_normalize fun text text' same => .modify fun s t here twins => ?_
    exact ⟨(place_writeCell text).trans here, twins.writeCell same⟩
  | column => exact .layTable (·.nextCell)
  | row => exact .layTable (·.endRow)

theorem follows_tableText :
    Follows place Unrelated (tableText raw) (tableText (Text.withReturns raw)) := by
  unfold tableText
  rw [Table.splitCells_withReturns]
  refine .forM ?_
  rw [List.forall₂_map_right_iff, List.forall₂_same]
  exact fun token _ => follows_cellToken token

theorem follows_plainText (html : ctx.target = .html) :
    Follows place Unrelated (plainText ctx raw) (plainText ctx (Text.withReturns raw)) := by
  unfold plainText
  rw [html]
  refine .bind follows_normalize fun text text' same => .modify fun s t here twins => ?_
  have same_flags : t.inParagraph = s.inParagraph ∧ t.inline = s.inline := by
    cases twins
    exact ⟨rfl, rfl⟩
  rw [same_flags.1, same_flags.2, ← same.allBlank_eq]
  split
  · exact ⟨here, twins.write same⟩
  · exact ⟨here, twins⟩

/-- Text without breaks is one paragraph, and so is any text with carriage returns. -/
theorem follows_paragraphText (html : ctx.target = .html) (unbroken : Unbroken raw.toList) :
    Follows place Unrelated (paragraphText ctx raw) (paragraphText ctx (Text.withReturns raw)) := by
  have whole (raw : String) (unbroken : Unbroken raw.toList) :
      paragraphText ctx raw = (do piece ctx raw.toList; pure ()) := by
    unfold paragraphText
    rw [paragraphs_unbroken unbroken]
    rfl
  have unbroken' : Unbroken (Text.withReturns raw).toList := by
    rw [Text.toList_withReturns]
    exact unbroken_returned _
  rw [whole _ unbroken, whole _ unbroken']
  refine .andThen ?_ (.pure trivial)
  unfold piece
  rw [html, flavor_html html, String.ofList_toList, String.ofList_toList]
  refine .bind follows_normalize fun text text' same => .modify fun s t here twins => ?_
  exact ⟨(place_writePiece text).trans here, twins.writePiece same⟩

theorem follows_text (html : ctx.target = .html) (unbroken : place.forms = true → Unbroken raw.toList) :
    Follows place Unrelated (text ctx raw) (text ctx (Text.withReturns raw)) := by
  unfold text
  refine .bind .get ?_
  rintro s t ⟨here, twins⟩
  have place_eq : t.table = s.table ∧ t.inline = s.inline ∧ t.depth = s.depth ∧
      t.blockDepth = s.blockDepth := by
    cases twins
    exact ⟨rfl, rfl, rfl, rfl⟩
  rw [place_eq.1, place_eq.2.1, place_eq.2.2.1, place_eq.2.2.2]
  split
  · exact follows_tableText
  split
  · exact follows_plainText html
  next outside flows =>
    refine follows_paragraphText html (unbroken ?_)
    subst here
    simpa [Place.forms, State.place, and_assoc] using And.intro outside flows

end Texts

/-! What a walk reads of a node. -/

/-- The nodes of an option, where a node has it. -/
def optionInside (node : Node) (key : String) : List (List Node) :=
  match node.optionNodes? key with
  | .ok (some inner) => [inner]
  | _ => []

def titleInside (node : Node) : List (List Node) :=
  match node.optionalArg? with
  | .ok (some arg) => [arg.nodes]
  | _ => []

/-- The texts by which a node says what is looked up, or what a file or an anchor is called. -/
def namesIn (node : Node) (rest : List Node) : Role → List String
  | .heading _ =>
    if Role.isStarred node.name then node.required.map Arg.text else (labelBehind? rest).toList
  | .citation _ =>
    node.required.flatMap fun arg => (Text.splitOn ',' arg.text).map Text.trim
  | .reference | .graphics | .codeColumns | .output _ | .outputColumns =>
    node.required.map Arg.text
  | .float _ => (floatLabel? node.children).toList
  | .caption => (captionLabel? node rest).toList
  | .drawing => [node.source]
  | .verbatim | .outputBox => node.optional.map Arg.raw
  | .example_ | .code => node.required.map Arg.text ++ node.optional.map Arg.raw
  | .raster =>
    (boxes node).flatMap fun box => box.required.map Arg.text ++ box.optional.map Arg.raw
  | _ => []

/-- The lists of nodes inside of a node that are walked, each with the place where that is. -/
def partsIn (place : Place) (node : Node) (rest : List Node) : Role → List (Place × List Node)
  | .markup _ | .heading _ => [(place.inlined, node.requiredNodes 0)]
  | .footnote => [(.text, node.requiredNodes 0)]
  | .float _ => [(place, captionFirst node.children)]
  | .caption =>
    [(place.inlined, node.requiredNodes 0), (place, node.requiredNodes 1),
      (place.inlined, node.requiredNodes 2)]
  | .table => [(place.tabled, node.children)]
  | .wideCell => [(place.inlined, node.requiredNodes 2)]
  | .list | .objectives => [(place, node.children)]
  | .item => (place.inlined, trimFront node.children) :: (titleInside node).map (.text, ·)
  | .abstract_ | .keywords =>
    [(place.inlined, node.requiredNodes 0), (place.inlined, trimFront node.children)]
  | .feature => [(place.blocked, node.children)]
  | .href | .coloredText => [(.text, node.requiredNodes 1)]
  | .color => [(.text, rest)]
  | .example_ => (optionInside node "caption").map (place.inlined, ·)
  | .code => (optionInside node "caption").map (.text, ·)
  | .raster => (boxes node).flatMap fun box => (optionInside box "caption").map (.text, ·)
  | .outputBox => (place, node.children) :: (optionInside node "title").map (.text, ·)
  | _ => []

def names (node : Node) (rest : List Node) : List String :=
  ((roleOf? node).map (namesIn node rest)).getD []

def parts (place : Place) (node : Node) (rest : List Node) : List (Place × List Node) :=
  match node with
  | .group children => [(place.inlined, children)]
  | _ => ((roleOf? node).map (partsIn place node rest)).getD []

/-- Neighbours in which no text has a paragraph break where text forms paragraphs, and in which each
name stands on one line. -/
inductive Returnable : Place → List Node → Prop
  | nil (place : Place) : Returnable place []
  | cons {place : Place} {node : Node} {rest : List Node}
    (unbroken : ∀ content, node = .text content → place.forms = true →
      Unbroken (content ++ textAhead rest).toList)
    (line : ∀ name ∈ names node rest, LineFree name.toList)
    (inside : ∀ part ∈ parts place node rest, Returnable part.1.below part.2)
    (behind : Returnable place (remaining node rest)) : Returnable place (node :: rest)

namespace Returnable

variable {place : Place} {content : String} {rest : List Node}

theorem text (unbroken : place.forms = true → Unbroken (content ++ textAhead rest).toList)
    (behind : Returnable place (rest.dropWhile (·.isText))) :
    Returnable place (.text content :: rest) := by
  refine .cons ?_ (by simp [names, roleOf?]) (by simp [parts, roleOf?]) behind
  rintro _ ⟨⟩
  exact unbroken

end Returnable

section Walks

variable {ctx : Context} {place : Place} {node : Node} {rest : List Node}

theorem optionsOnLine_of_map (line : ∀ name ∈ node.optional.map Arg.raw, LineFree name.toList) :
    node.OptionsOnLine := fun _ member => line _ (List.mem_map_of_mem member)

theorem textsOnLine_of_map (line : ∀ name ∈ node.required.map Arg.text, LineFree name.toList) :
    TextsOnLine node := fun _ member => line _ (List.mem_map_of_mem member)

theorem rewalks_optionInside {key : String} {inner : List Node}
    (inside : ∀ part ∈ (optionInside node key).map (place, ·), Rewalks ctx part.1 part.2)
    (found : node.optionNodes? key = .ok (some inner)) : Rewalks ctx place inner := by
  rw [optionInside, found] at inside
  exact inside (place, inner) List.mem_cons_self

theorem rewalks_titleInside {arg : Arg}
    (inside : ∀ part ∈ (titleInside node).map (place, ·), Rewalks ctx part.1 part.2)
    (found : node.optionalArg? = .ok (some arg)) : Rewalks ctx place arg.nodes := by
  rw [titleInside, found] at inside
  exact inside (place, arg.nodes) List.mem_cons_self

/-- What a node does is done again with its carriage returns, if the walks inside of it are. -/
theorem follows_perform (html : ctx.target = .html) (role : Role)
    (line : ∀ name ∈ namesIn node rest role, LineFree name.toList)
    (inside : ∀ part ∈ partsIn place node rest role, Rewalks ctx part.1 part.2) :
    Follows place Unrelated (perform ctx node rest (below ctx node rest) role)
      (perform ctx node.withReturns (rest.map Node.withReturns)
        (below ctx node.withReturns (rest.map Node.withReturns)) role) := by
  cases role <;> simp only [perform, namesIn, partsIn, List.forall_mem_cons] at line inside ⊢
  case ignored | partialRule | transparent => exact .pure trivial
  case markup m => exact follows_markup m inside.1
  case fixed first second => exact follows_fixed first second
  case heading level =>
    rw [Node.name_withReturns]
    refine follows_heading level _ (fun starred => ?_) (fun plain label behind => ?_) inside.1
    · rw [if_pos starred] at line
      exact textsOnLine_of_map line
    · rw [if_neg (by rw [plain]; decide)] at line
      exact line label (Option.mem_toList.mpr behind)
  case citation style =>
    refine follows_citation html style fun arg member key among => line key ?_
    exact List.mem_flatMap.mpr ⟨arg, member, among⟩
  case reference => exact follows_reference (textsOnLine_of_map line)
  case footnote => exact follows_footnote inside.1
  case float class_ =>
    exact follows_float class_ (fun label found => line label (Option.mem_toList.mpr found)) inside.1
  case caption =>
    exact follows_caption (fun label found => line label (Option.mem_toList.mpr found)) inside.1
      inside.2.1 inside.2.2.1
  case graphics => exact follows_graphics (textsOnLine_of_map line)
  case drawing => exact follows_drawing line.1
  case table => exact follows_table inside.1
  case wideCell => exact follows_wideCell inside.1
  case rule => exact .layTable (·.midrule)
  case list => exact follows_list inside.1
  case item =>
    exact follows_item html (fun _ found => rewalks_titleInside inside.2 found) inside.1
  case objectives => exact follows_objectives inside.1
  case abstract_ => exact follows_abstractBlock inside.1 inside.2.1
  case keywords => exact follows_keywordBlock inside.1 inside.2.1
  case feature => exact follows_feature inside.1
  case equation name => exact follows_equation html name
  case verbatim => exact follows_verbatim html (optionsOnLine_of_map line)
  case verb => exact follows_verb
  case dirtree => exact follows_dirtree
  case url => exact follows_url html
  case href => exact follows_href html inside.1
  case color => exact follows_color html inside.1
  case coloredText => exact follows_coloredText html inside.1
  case example_ =>
    obtain ⟨texts, options⟩ := List.forall_mem_append.mp line
    exact follows_example (textsOnLine_of_map texts) (optionsOnLine_of_map options)
      fun _ found => rewalks_optionInside inside found
  case codeColumns => exact follows_codeColumns (textsOnLine_of_map line)
  case code =>
    obtain ⟨texts, options⟩ := List.forall_mem_append.mp line
    exact follows_code html (textsOnLine_of_map texts) (optionsOnLine_of_map options)
      fun _ found => rewalks_optionInside inside found
  case output format => exact follows_output format (textsOnLine_of_map line)
  case outputColumns => exact follows_outputColumns (textsOnLine_of_map line)
  case raster =>
    have boxed (box : Node) (among : box ∈ boxes node) := List.forall_mem_append.mp
      fun name member => line name (List.mem_flatMap.mpr ⟨box, among, member⟩)
    refine follows_raster html (fun box among => textsOnLine_of_map (boxed box among).1)
      (fun box among => optionsOnLine_of_map (boxed box among).2) fun box among _ found => ?_
    exact rewalks_optionInside
      (fun part member => inside part (List.mem_flatMap.mpr ⟨box, among, member⟩)) found
  case outputBox =>
    exact follows_outputBox html (optionsOnLine_of_map line)
      (fun _ found => rewalks_optionInside inside.2 found) inside.1
  case unknown => exact .record _ _

theorem follows_group (inside : Rewalks ctx place.inlined node.children) :
    Follows place Unrelated (group ctx node rest (below ctx node rest))
      (group ctx node.withReturns (rest.map Node.withReturns)
        (below ctx node.withReturns (rest.map Node.withReturns))) := by
  have children : Follows place Unrelated (inlined (nodes ctx node.children))
      (inlined (nodes ctx node.withReturns.children)) := .inlined (follows_children inside)
  have blank : node.withReturns.children.all (·.isBlank) = node.children.all (·.isBlank) := by
    rw [Node.children_withReturns, all_isBlank_withReturns]
  unfold group
  rw [blank]
  split
  · exact .andThen .openParagraph children
  · exact children

theorem follows_meet (html : ctx.target = .html)
    (unbroken : ∀ content, node = .text content → place.forms = true →
      Unbroken (content ++ textAhead rest).toList)
    (line : ∀ name ∈ names node rest, LineFree name.toList)
    (inside : ∀ part ∈ parts place node rest, Rewalks ctx part.1 part.2) :
    Follows place Unrelated (meet ctx node rest)
      (meet ctx node.withReturns (rest.map Node.withReturns)) := by
  unfold meet
  cases role_eq : roleOf? node with
  | some role =>
    rw [visit_of_role role_eq, visit_of_role ((roleOf?_withReturns node).trans role_eq)]
    refine follows_perform html role ?_ ?_
    · rwa [names, role_eq] at line
    · cases node with
      | command | environment =>
        simpa only [parts, role_eq, Option.map_some, Option.getD_some] using inside
      | text | math | group => cases role_eq
  | none =>
    cases node with
    | text content =>
      have ahead : Text.withReturns content ++ textAhead (rest.map Node.withReturns) =
          Text.withReturns (content ++ textAhead rest) := by
        rw [textAhead_withReturns, Text.withReturns_append]
      rw [Node.withReturns_text]
      simp only [visit, ahead]
      exact follows_text html (unbroken content rfl)
    | math display content =>
      rw [Node.withReturns_math]
      refine follows_math html display ?_
      rw [Text.toList_withReturns]
      exact .returned _
    | group children =>
      have walked := @follows_group ctx place (.group children) rest (inside _ List.mem_cons_self)
      rw [Node.withReturns_group] at walked ⊢
      exact walked
    | command | environment => cases role_eq

/-- The walk of returnable neighbours is followed by the walk of them with carriage returns. -/
theorem follows_neighbours (html : ctx.target = .html) {queue : List Node}
    (returnable : Returnable place queue) : Follows place Unrelated (neighbours ctx queue)
      (neighbours ctx (queue.map Node.withReturns)) := by
  induction returnable with
  | nil place =>
    rw [List.map_nil, neighbours_nil]
    exact .pure trivial
  | cons unbroken line inside behind parts_ih ih =>
    rw [List.map_cons, neighbours_cons_meet, neighbours_cons_meet, remaining_withReturns]
    exact .bind (follows_meet html unbroken line fun part member => .deeper (parts_ih part member))
      fun _ _ _ => ih

end Walks

section Pages

variable {ctx : Context} {s t : State}

theorem sameLines_footnotes {notes notes' : List String}
    (same : List.Forall₂ SameLines notes notes') :
    SameLines (Html.footnotes notes) (Html.footnotes notes') := by
  have numbered (number : Nat → Nat) : List.Forall₂ SameLines
      (notes.mapIdx fun i note => Html.footnote (number i) note)
      (notes'.mapIdx fun i note => Html.footnote (number i) note) := by
    induction same generalizing number with
    | nil => exact .nil
    | cons first _ ih =>
      rw [List.mapIdx_cons, List.mapIdx_cons]
      refine .cons (.join ?_) (ih fun i => number (i + 1))
      exact .cons (.refl _) (.cons (.refl _) (.cons (.refl _) (.cons first
        (List.forall₂_same.mpr fun text _ => .refl text))))
  exact .join (.cons (.refl _) (.cons (.join (numbered (· + 1))) (.cons (.refl _) .nil)))

/-- The bodies of two pages that are finished differ in the same way as the texts so far. -/
theorem sameLines_finish (html : ctx.target = .html) (twins : Twins s t) :
    SameLines (s.finish ctx).body (t.finish ctx).body := by
  have ended := (@Twins.closeParagraph _ _ Html.flavor twins).finishTable none
  unfold State.finish
  rw [flavor_html html]
  dsimp only
  generalize (s.closeParagraph Html.flavor).finishTable none = s' at ended ⊢
  generalize (t.closeParagraph Html.flavor).finishTable none = t' at ended ⊢
  obtain ⟨out_same, notes_same⟩ := ended
  refine out_same.append ?_
  generalize s'.footnotes = notes at notes_same ⊢
  cases notes_same with
  | nil => exact .refl _
  | cons first more => exact sameLines_footnotes (.cons first more)

/-- A source without carriage returns is rendered with them in front of its line feeds too, and the
paragraphs of its page stay the same, if no backslash ends a line and its nodes are returnable. -/
theorem render_withReturns (kept : List String) (ctx : Context) (disk disk' : Disk) {tex : String}
    {lexemes : List Lexeme} {chapter : List Node} {page : Rendered}
    (bare : '\r' ∉ tex.toList)
    (cut : Token.tokenize (Verbs.preprocess kept tex).1 = .ok lexemes)
    (plain : ∀ l ∈ lexemes, l.token ≠ .escape '\n')
    (parsed : Node.parse (Verbs.preprocess kept tex).1 = .ok chapter)
    (returnable : Returnable .chapter chapter)
    (rendered : render { ctx with target := .html, verbs := (Verbs.preprocess kept tex).2 } disk
      chapter = (.ok page, disk')) :
    ∃ chapter' page',
      Node.parse (Verbs.preprocess kept (Text.withReturns tex)).1 = .ok chapter' ∧
      render { ctx with target := .html, verbs := (Verbs.preprocess kept (Text.withReturns tex)).2 }
        disk chapter' = (.ok page', disk') ∧
      Html.paragraphTags page'.body = Html.paragraphTags page.body := by
  rw [Verbs.preprocess_withReturns]
  have parsed' := Node.parse_withReturns (Verbs.bare_preprocess bare) cut plain parsed
  generalize within_ : { ctx with target := .html, verbs := (Verbs.preprocess kept tex).2 } = ctx' at *
  have html : ctx'.target = .html := by rw [← within_]
  have followed : Follows (State.start ctx' disk).place Unrelated (nodes ctx' chapter)
      (nodes ctx' (chapter.map Node.withReturns)) := .deeper (follows_neighbours html returnable)
  rw [render_eq] at rendered
  cases walked : nodes ctx' chapter (.start ctx' disk) with
  | mk result s =>
    rw [walked] at rendered
    cases result with
    | error e => cases rendered
    | ok _ =>
      cases rendered
      obtain ⟨-, _, t, walked', -, twins⟩ := followed _ _ rfl (.refl _) _ _ walked
      refine ⟨_, t.finish ctx', parsed', ?_, (sameLines_finish html twins).paragraphTags_eq.symm⟩
      have disk_eq : t.disk = s.disk := by
        cases twins
        rfl
      rw [render_eq, walked']
      exact congrArg (Prod.mk _) disk_eq

/-- Markup over two lines, a comment, a table, and a paragraph behind it. -/
theorem render_withReturns_of_table :
    let ctx (tex : String) : Context :=
      ⟨.empty, .empty, (Verbs.preprocess [] tex).2, "", ⟨"", "", 0, 0, .offline⟩, .html, 1⟩
    let disk : Disk := .empty
    let tex := "On\n\\emph\x7ba\nb\x7d c\n% d\n\\begin\x7btabular\x7d\x7bl\x7d\ne\n\\end\x7btabular\x7d\nf\n"
    ∃ chapter page disk', Node.parse (Verbs.preprocess [] tex).1 = .ok chapter ∧
      render (ctx tex) disk chapter = (.ok page, disk') ∧
      Html.paragraphTags page.body = [.opening, .closing, .opening, .closing] ∧
      ∃ chapter' page', Node.parse (Verbs.preprocess [] (Text.withReturns tex)).1 = .ok chapter' ∧
        render (ctx (Text.withReturns tex)) disk chapter' = (.ok page', disk') ∧
        Html.paragraphTags page'.body = Html.paragraphTags page.body := by
  intro ctx disk tex
  let emph : Node := .command "emph" [.mk .required [.text "a\nb"] "a\nb"]
  let table : Node :=
    .environment "tabular" [.mk .required [.text "l"] "l"] [.text "\ne\n"]
  let chapter : List Node :=
    [.text "On\n", emph, .text " c\n", .text "% d", .text "\n", table, .text "\nf\n"]
  have emphRole : roleOf? emph = some (.markup .emphasis) := by decide
  have tableRole : roleOf? table = some .table := by decide
  have inEmph : Returnable Place.chapter.inlined.below (emph.requiredNodes 0) :=
    .text nofun (.nil _)
  have inTable : Returnable Place.chapter.tabled.below table.children := .text nofun (.nil _)
  have fromTable : Returnable .chapter [table, .text "\nf\n"] :=
    .cons nofun (by simp [names, tableRole, namesIn])
      (by simpa [parts, tableRole, partsIn] using inTable)
      (.text (fun _ => by decide +kernel) (.nil _))
  have fromEmph : Returnable .chapter
      [emph, .text " c\n", .text "% d", .text "\n", table, .text "\nf\n"] :=
    .cons nofun (by simp [names, emphRole, namesIn])
      (by simpa [parts, emphRole, partsIn] using inEmph)
      (.text (fun _ => by decide +kernel) fromTable)
  have returnable : Returnable .chapter chapter := .text (fun _ => by decide +kernel) fromEmph
  have parsed : Node.parse (Verbs.preprocess [] tex).1 = .ok chapter := by cbv
  have checked : ((Token.tokenize (Verbs.preprocess [] tex).1).toOption.map fun lexemes =>
      lexemes.all (·.token != .escape '\n')) = some true := by decide +kernel
  have tagged : ((render (ctx tex) disk chapter).1.toOption.map (Html.paragraphTags ·.body)) =
      some [.opening, .closing, .opening, .closing] := by decide +kernel
  cases cut : Token.tokenize (Verbs.preprocess [] tex).1 with
  | error e =>
    rw [cut] at checked
    cases checked
  | ok lexemes =>
    rw [cut] at checked
    have plain : ∀ l ∈ lexemes, l.token ≠ .escape '\n' := by
      simpa using List.all_eq_true.mp (Option.some.inj checked)
    cases result : (render (ctx tex) disk chapter).1 with
    | error fault =>
      rw [result] at tagged
      cases tagged
    | ok page =>
      rw [result] at tagged
      have rendered : render (ctx tex) disk chapter = (.ok page, (render (ctx tex) disk chapter).2) :=
        Prod.ext result rfl
      obtain ⟨chapter', page', parsed', rendered', same⟩ := render_withReturns [] (ctx tex)
        disk (render (ctx tex) disk chapter).2 (by decide +kernel) cut plain parsed returnable rendered
      exact ⟨chapter, page, _, parsed, rendered, Option.some.inj tagged, chapter', page', parsed',
        rendered', same⟩

/-- A line without anything on it parts paragraphs only if no carriage return ends it. -/
theorem blank_line_with_return :
    let ctx : Context := ⟨.empty, .empty, [], "", ⟨"", "", 0, 0, .offline⟩, .html, 1⟩
    let tex := "a\n\nb"
    let tags (tex : String) := (Node.parse (Verbs.preprocess [] tex).1).toOption.bind
      fun chapter => (render ctx .empty chapter).1.toOption.map (Html.paragraphTags ·.body)
    '\r' ∉ tex.toList ∧ Text.withReturns tex = "a\r\n\r\nb" ∧
      tags tex = some [.opening, .closing, .opening, .closing] ∧
      tags (Text.withReturns tex) = some [.opening, .closing] := by
  intro ctx tex tags
  exact ⟨by decide +kernel, by decide +kernel, by decide +kernel, by decide +kernel⟩

end Pages

end Walk
end Quire
