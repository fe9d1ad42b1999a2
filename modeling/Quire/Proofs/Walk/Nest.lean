import Quire.Node.Parse
import Quire.Proofs.Walk.Spot

/-! The tags of a chapter for HTML. A paragraph is closed wherever a block starts, so that all tags
are in their places as long as no block starts in markup inside a paragraph. Main statement: the
body of a chapter that keeps to this is well nested. -/
namespace Quire.Walk

variable {ctx : Context} {spot : Spot}

/-- Nodes that nest at a spot: running text, markup, headings, lists, blocks of features and math,
where nothing that is a block stands in markup inside a paragraph. -/
inductive Nests : Spot → List Node → Prop
  | nil {spot : Spot} : Nests spot []
  | text {spot : Spot} {content : String} {rest : List Node}
      (mathless : Prose.mathless .text (content ++ textAhead rest).toList = true)
      (more : Nests spot (remaining (.text content) rest)) : Nests spot (.text content :: rest)
  | math {spot : Spot} {display : Bool} {content : String} {rest : List Node}
      (blocks : display = true → spot.blocks = true) (more : Nests spot rest) :
      Nests spot (.math display content :: rest)
  | group {spot : Spot} {children rest : List Node} (inner : Nests spot.inBraces children)
      (more : Nests spot rest) : Nests spot (.group children :: rest)
  | markup {spot : Spot} {node : Node} {rest : List Node} {m : Markup}
      (role_eq : roleOf? node = some (.markup m))
      (inner : Nests spot.inMarkup (node.requiredNodes 0)) (more : Nests spot rest) :
      Nests spot (node :: rest)
  | heading {spot : Spot} {node : Node} {rest : List Node} {level : Level}
      (role_eq : roleOf? node = some (.heading level)) (blocks : spot.blocks = true)
      (title : Nests .line (node.requiredNodes 0)) (more : Nests spot rest) :
      Nests spot (node :: rest)
  | list {spot : Spot} {node : Node} {rest : List Node} (role_eq : roleOf? node = some .list)
      (blocks : spot.blocks = true) (inner : Nests spot.inList node.children)
      (more : Nests spot rest) : Nests spot (node :: rest)
  | item {spot : Spot} {node : Node} {rest : List Node} (role_eq : roleOf? node = some .item)
      (title : ∀ arg, node.optionalArg? = .ok (some arg) → Nests .line arg.nodes)
      (inner : Nests spot.inMarkup (trimFront node.children)) (more : Nests spot rest) :
      Nests spot (node :: rest)
  | feature {spot : Spot} {node : Node} {rest : List Node}
      (role_eq : roleOf? node = some .feature) (blocks : spot.blocks = true)
      (inner : Nests spot.inBlock node.children) (more : Nests spot rest) :
      Nests spot (node :: rest)
  | equation {spot : Spot} {node : Node} {rest : List Node} {environment : Option String}
      (role_eq : roleOf? node = some (.equation environment)) (blocks : spot.blocks = true)
      (more : Nests spot rest) : Nests spot (node :: rest)

theorem roleOf?_label {node : Node} (named : node.name = "label") :
    roleOf? node = some .ignored := by
  rw [roleOf?_of_name named (by decide)]
  decide

def Role.nests : Role → Bool
  | .markup _ | .heading _ | .list | .item | .feature | .equation _ => true
  | _ => false

theorem remaining_of_nests {node : Node} {rest : List Node} {role : Role}
    (role_eq : roleOf? node = some role) (nests : role.nests = true) :
    remaining node rest = rest := by
  unfold remaining
  split
  next => cases role_eq
  next =>
    rw [role_eq]
    split
    case h_5 => rfl
    all_goals
      rename_i same
      cases same
      cases nests

/-- The first node that is more than white space and comments is a text, or it is found behind the
texts in front. -/
theorem isText_or_found {queue : List Node} {node : Node}
    (found : queue.find? (!·.isBlankOrComment) = some node) :
    node.isText = true ∨
      (queue.dropWhile (·.isText)).find? (!·.isBlankOrComment) = some node := by
  induction queue with
  | nil => cases found
  | cons first queue ih =>
    cases first with
    | text content =>
      rw [List.find?_cons] at found
      split at found
      next =>
        obtain rfl := Option.some.inj found
        exact .inl rfl
      next => exact ih found
    | command | environment | group | math => exact .inr found

theorem name_ne_label {node : Node} (plain : roleOf? node = none) : node.name ≠ "label" := by
  intro named
  rw [roleOf?_label named] at plain
  cases plain

/-- No label stands among these nodes. -/
theorem labelBehind?_of_nests {queue : List Node} (nests : Nests spot queue) :
    labelBehind? queue = none := by
  have unnamed {node : Node} (found : queue.find? (!·.isBlankOrComment) = some node) :
      node.name ≠ "label" := by
    have ofRole {first : Node} {rest : List Node} {role : Role}
        (role_eq : roleOf? first = some role) (nests : role.nests = true)
        (found : (first :: rest).find? (!·.isBlankOrComment) = some node) :
        node.name ≠ "label" := by
      have shown : first.isBlankOrComment = false := by
        cases first with
        | text => cases role_eq
        | command | environment | group | math => rfl
      rw [List.find?_cons, shown] at found
      obtain rfl := Option.some.inj found
      intro named
      obtain rfl := Option.some.inj (role_eq.symm.trans (roleOf?_label named))
      cases nests
    induction nests with
    | nil => cases found
    | text _ _ ih =>
      obtain text | found := isText_or_found found
      · cases node with
        | text => exact name_ne_label rfl
        | command | environment | group | math => cases text
      · exact ih found
    | math | group =>
      obtain rfl := Option.some.inj found
      exact name_ne_label rfl
    | markup role_eq | heading role_eq | list role_eq | item role_eq | feature role_eq
    | equation role_eq => exact ofRole role_eq rfl found
  unfold labelBehind?
  split
  next node found => exact if_neg (unnamed found)
  next => rfl

theorem frames_meet (ctx : Context) (node : Node) (rest : List Node) (s : State) :
    Frames s (meet ctx node rest s).2 :=
  have kin : ctx.Kin ctx := .mk ctx ctx.labels ctx.labels ctx.target ctx.target
  ((abreast_visit (n := 0) (fun inner _ => abreast_nodes kin inner) kin).left s).frames

/-- Nodes that nest keep to their spot, one after the other. -/
theorem tidy_of_nests (html : ctx.target = .html) {queue : List Node}
    (nests : Nests spot queue) : Tidy ctx spot queue := by
  have next {spot : Spot} {node : Node} {rest : List Node}
      (met : ∀ base s u, Stands spot base s → meet ctx node rest s = (.ok (), u) →
        Keeps spot base s u)
      (more : Tidy ctx spot (remaining node rest)) : Tidy ctx spot (node :: rest) := by
    intro base s u stands ran
    rw [neighbours_cons_meet] at ran
    obtain ⟨⟨⟩, t, done, ran⟩ := bind_eq_ok ran
    have keeps := met base s t stands done
    have frames := frames_meet ctx node rest s
    rw [done] at frames
    have behind := more base t u (stands.keep frames keeps) ran
    exact ⟨behind.opened, fun unbroken => (behind.outside unbroken).trans (keeps.outside unbroken)⟩
  have ofRole {spot : Spot} {node : Node} {rest : List Node} {role : Role}
      (role_eq : roleOf? node = some role) (nests : role.nests = true)
      (performs : ∀ base s u, Stands spot base s →
        perform ctx node rest (below ctx node rest) role s = (.ok (), u) → Keeps spot base s u)
      (more : Tidy ctx spot rest) : Tidy ctx spot (node :: rest) := by
    refine next (fun base s u stands ran => ?_) (by rwa [remaining_of_nests role_eq nests])
    rw [meet, visit_of_role role_eq] at ran
    exact performs base s u stands ran
  -- The handlers of nodes with children take the induction hypothesis for these, at their spot. A
  -- heading asks for a label behind it, and there is none.
  induction nests with
  | nil =>
    intro base s u stands ran
    rw [neighbours_nil] at ran
    cases ran
    exact stands.refl
  | text mathless _ ih =>
    exact next (fun base s u stands ran => keeps_text html mathless stands ran) ih
  | math blocks _ ih =>
    exact next (fun base s u stands ran => keeps_math html blocks stands ran) ih
  | group _ _ inner ih =>
    exact next (fun base s u stands ran => keeps_group html inner stands ran) ih
  | markup role_eq _ _ inner ih =>
    exact ofRole role_eq rfl (fun base s u stands ran => keeps_markup html inner stands ran) ih
  | heading role_eq blocks _ more title ih =>
    exact ofRole role_eq rfl (fun base s u stands ran =>
      keeps_heading html blocks (labelBehind?_of_nests more) title stands ran) ih
  | list role_eq blocks _ _ inner ih =>
    exact ofRole role_eq rfl
      (fun base s u stands ran => keeps_list html blocks inner stands ran) ih
  | item role_eq _ _ _ title inner ih =>
    exact ofRole role_eq rfl
      (fun base s u stands ran => keeps_item html title inner stands ran) ih
  | feature role_eq blocks _ _ inner ih =>
    exact ofRole role_eq rfl
      (fun base s u stands ran => keeps_feature html blocks inner stands ran) ih
  | equation role_eq blocks _ ih =>
    exact ofRole role_eq rfl
      (fun base s u stands ran => keeps_math html (fun _ => blocks) stands ran) ih

/-- The body of a chapter whose nodes nest is well nested. -/
theorem wellNested_render {ctx : Context} {disk disk' : Disk} {chapter : List Node}
    {rendered : Rendered} (html : ctx.target = .html) (nests : Nests .paragraphs chapter)
    (done : render ctx disk chapter = (.ok rendered, disk')) :
    Html.WellNested rendered.body := by
  rw [render_eq] at done
  split at done
  next s walked =>
    obtain ⟨body, -⟩ := Prod.mk.inj done
    obtain rfl := Except.ok.inj body
    have start : HasOpen [] (State.start ctx disk) := ⟨rfl, rfl, rfl⟩
    obtain ⟨opened, -⟩ := (tidy_of_nests html nests).nodes (a := []) (s := .start ctx disk) start
      ⟨rfl, rfl⟩ walked
    have closed := opened.closeParagraph fun _ => rfl
    have finished : (s.closeParagraph Html.flavor).finishTable none =
        { s.closeParagraph Html.flavor with
          table := none, strays := (s.closeParagraph Html.flavor).strays.tail } := by
      rw [State.finishTable, closed.noTable]
    rw [State.finish, flavor_html html, finished]
    simp only [closed.unnoted, List.isEmpty_nil, if_true, String.append_empty]
    exact closed.reads
  next => cases done

/-- A heading with markup, braces with math in a paragraph, a list with math in the markup of an
item, and a block with paragraphs of its own. -/
theorem wellNested_render_of_nested :
    let emph (nodes : List Node) : Node := .command "emph" [.mk .required nodes ""]
    let title : Node := .command "section" [.mk .required [.text "On ", emph [.text "it"]] "On it"]
    let item : Node := .environment "item" [.mk .optional [.text "T"] "T"]
      [.text " ", emph [.text "x ", .math true "y"]]
    let list : Node := .environment "itemize" [] [item]
    let block : Node := .environment "feature" [] [.text "B\n\nC"]
    let chapter : List Node := [title, .text "A ", .group [.text "s ", .math true "z"],
      .math false "a<b", list, block]
    let ctx : Context := ⟨.empty, .empty, [], "", ⟨"", "", 0, 0, .offline⟩, .html, 1⟩
    ∃ rendered disk, render ctx .empty chapter = (.ok rendered, disk) ∧
      Html.WellNested rendered.body := by
  intro emph title item list block chapter ctx
  have titleRole : roleOf? title = some (.heading .section_) := by decide
  have itRole : roleOf? (emph [.text "it"]) = some (.markup .emphasis) := by decide
  have xRole : roleOf? (emph [.text "x ", .math true "y"]) = some (.markup .emphasis) := by decide
  have itemRole : roleOf? item = some .item := by decide
  have listRole : roleOf? list = some .list := by decide
  have blockRole : roleOf? block = some .feature := by decide
  have inTitle : Nests .line (title.requiredNodes 0) :=
    .text (by decide) (.markup itRole (.text (by decide) .nil) .nil)
  have inGroup : Nests .braces [.text "s ", .math true "z"] :=
    .text (by decide) (.math (fun _ => rfl) .nil)
  have inMarkup : Nests .line [.text "x ", .math true "y"] :=
    .text (by decide) (.math (fun _ => rfl) .nil)
  have inItem : Nests .line (trimFront item.children) := .markup xRole inMarkup .nil
  have label (arg : Arg) (found : item.optionalArg? = .ok (some arg)) : Nests .line arg.nodes := by
    cases found
    exact .text (by decide) .nil
  have inList : Nests .items list.children := .item itemRole label inItem .nil
  have inBlock : Nests .paragraphs block.children := .text (by decide) .nil
  have nests : Nests .paragraphs chapter :=
    .heading titleRole rfl inTitle (.text (by decide) (.group inGroup (.math nofun
      (.list listRole rfl inList (.feature blockRole rfl inBlock .nil)))))
  have succeeds : (render ctx .empty chapter).1.isOk = true := by decide +kernel
  cases result : (render ctx .empty chapter).1 with
  | error fault =>
    rw [result] at succeeds
    cases succeeds
  | ok rendered =>
    have done : render ctx .empty chapter =
        (.ok rendered, (render ctx .empty chapter).2) := Prod.ext result rfl
    exact ⟨rendered, _, done, wellNested_render rfl nests done⟩

/-- A block in markup inside a paragraph closes the paragraph, and the markup ends behind it. -/
theorem displayMath_crosses_markup :
    let ctx : Context := ⟨.empty, .empty, [], "", ⟨"", "", 0, 0, .offline⟩, .html, 1⟩
    let body := "\n<p><em>a</p>\n\\[x\\] b</em>"
    ((Node.parse "\\emph\x7ba \\[x\\] b\x7d").toOption.bind fun chapter =>
        (render ctx .empty chapter).1.toOption.map (·.body)) = some body ∧
      ¬ Html.WellNested body := by
  intro ctx body
  exact ⟨by decide +kernel, by decide +kernel⟩

end Quire.Walk
