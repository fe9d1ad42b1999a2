import Quire.Asset.Picture
import Quire.Proofs.Walk.Account
import Quire.Proofs.Walk.Flow

/-! Where references land. The link to a label and the element that carries the label get their
anchors from two places: the link from the spelling of the label, a heading from its number, and a
caption from its label. Main statement: the two are the same where the spelling of the label fits
the element. -/
namespace Quire

namespace Reference

def fragment (href : String) : String := .ofList ((href.toList.dropWhile (· != '#')).drop 1)

/-- True for a label that names a heading by what stands before its colon. -/
def IsOfHeading (label : String) : Prop :=
  UnitKind.labelSpace? label = some "sec" ∨ UnitKind.labelSpace? label = some "chap"

instance (label : String) : Decidable (IsOfHeading label) :=
  inferInstanceAs (Decidable (_ ∨ _))

theorem anchorFor_of_isOfHeading {label : String} (ofHeading : IsOfHeading label)
    (number : String) : anchorFor label number = sectionAnchor number := by
  rcases ofHeading with space | space <;> simp only [anchorFor, space]

theorem anchorFor_of_not_isOfHeading {label : String} (other : ¬ IsOfHeading label)
    (number : String) : anchorFor label number = labelId label := by
  unfold anchorFor
  split
  next space => exact absurd (.inl space) other
  next space => exact absurd (.inr space) other
  next => rfl

theorem numberSign_not_mem_chapterFile (ordinal : Nat) (target : Target) :
    '#' ∉ (chapterFile ordinal target.extension).toList := by
  have digits := Text.not_mem_toDigits (c := '#') (by decide) ordinal
  have extension : '#' ∉ target.extension.toList := by cases target <;> decide
  simp [chapterFile, Text.padded, digits, extension]

theorem fragment_append {page : String} (noSign : '#' ∉ page.toList) (anchor : String) :
    fragment (page ++ "#" ++ anchor) = anchor := by
  have skipped : ∀ c ∈ page.toList, (c != '#') = true := by
    intro c member
    simpa using fun same : c = '#' => noSign (same ▸ member)
  rw [fragment, String.toList_append, String.toList_append, List.append_assoc,
    List.dropWhile_append_of_pos skipped]
  exact String.ofList_toList

/-- The fragment of a link is the anchor of its label. -/
theorem fragment_resolve {index : LabelIndex} {label : String} {current : Nat} {target : Target}
    {resolved : Resolved}
    (found : resolve? index label current target.extension = some resolved) :
    ∃ number, index.get? label = some number ∧
      fragment resolved.href = anchorFor label number := by
  obtain ⟨number, known, rfl⟩ := Option.map_eq_some_iff.mp found
  refine ⟨number, known, fragment_append ?_ _⟩
  split
  next ordinal _ =>
    split
    · simp
    · exact numberSign_not_mem_chapterFile ordinal target
  next => simp

end Reference

namespace Walk

variable {ctx : Context} {node : Node} {rest : List Node} {s t : State}

/-- The number of a heading with a known label behind it. -/
theorem headingNumber_of_known {level : Level} {label number : String}
    (behind : labelBehind? rest = some label) (known : ctx.labels.get? label = some number) :
    headingNumber ctx level rest s =
      (.ok number, { s with counters := s.counters.bump level }) := by
  simp [headingNumber, behind, known]

/-- What is written around running text stands around it. -/
theorem out_inlined {step : Walk Unit} {front back : String}
    (ran : (do write front; inlined step; write back) s = (.ok (), t))
    (course : ∀ s, Course ctx s (step s).2) (unopened : s.inParagraph = false) :
    ∃ inner, t.out = s.out ++ front ++ inner ++ back := by
  obtain ⟨⟨⟩, s₁, opened, ran⟩ := bind_eq_ok ran
  obtain ⟨⟨⟩, s₂, stepped, closed⟩ := bind_eq_ok ran
  have grown : Grows (s.write front) s₂ := by
    cases opened
    simpa only [stepped] using grows_inlined course (s := s.write front) unopened
  obtain ⟨inner, eq⟩ := grown.out_prefix
  refine ⟨.ofList inner, ?_⟩
  cases closed
  have same : s₂.out = s.out ++ front ++ .ofList inner := by
    rw [← String.ofList_toList (s := s₂.out), ← eq, String.ofList_append, String.ofList_toList]
    rfl
  rw [← same]
  rfl

/-- The text that gives the element of a heading its id: in HTML the start of its tag, for Quarto the
attributes behind its title. -/
def headingMark : Target → Level → String → String
  | .html, level, id => "\n<h" ++ toString level.rank ++ " id='" ++ id ++ "'>"
  | .quarto, _, id => " " ++ Quarto.attributes ("#" ++ id ++ " .unnumbered") ++ "\n"

theorem headingMark_infix (target : Target) (level : Level) (id number title : String) :
    (headingMark target level id).toList <:+:
      (target.flavor.headingOpen level id number ++ title ++
        target.flavor.headingClose level id).toList := by
  cases target with
  | html =>
    have opened : (headingMark .html level id).toList <+:
        (Html.headingOpen level id number).toList := by
      unfold Html.headingOpen
      dsimp only
      split
      · exact List.prefix_rfl
      · exact ⟨("<small class='text-muted'><a class='anchor' href='#" ++ id ++ "'>" ++ number ++
          "</a></small> ").toList, by simp [headingMark]⟩
    refine (opened.trans ?_).isInfix
    rw [String.append_assoc]
    exact Text.toList_prefix_append _ _
  | quarto =>
    refine List.IsSuffix.isInfix ⟨(Quarto.headingOpen level number ++ title).toList, ?_⟩
    rw [← String.toList_append]
    rfl

theorem out_heading {level : Level} {label number : String}
    (behind : labelBehind? rest = some label) (known : ctx.labels.get? label = some number)
    (ran : heading ctx (below ctx node rest) level false s = (.ok (), t)) :
    ∃ title, t.out = (s.closeParagraph ctx.flavor).out ++
      ctx.flavor.headingOpen level (Reference.sectionAnchor number) number ++ title ++
      ctx.flavor.headingClose level (Reference.sectionAnchor number) := by
  unfold heading at ran
  obtain ⟨arg, s₁, got, ran₁⟩ := bind_eq_ok ran
  obtain ⟨-, rfl⟩ := rendering_eq_ok got
  obtain ⟨⟨⟩, s₂, ⟨⟩, ran₂⟩ := bind_eq_ok ran₁
  simp only [Bool.false_eq_true, if_false] at ran₂
  obtain ⟨shown, s₃, counted, titled⟩ := bind_eq_ok ran₂
  rw [headingNumber_of_known behind known] at counted
  cases counted
  have written := out_inlined titled (course_nodes ctx (node.requiredNodes 0))
  exact written (unopened_closeParagraph ctx.flavor s₁)

/-! Captions. -/

def innerLabel? (node : Node) : Option String :=
  named? "label" (node.requiredNodes 0) >>= labelOf?

/-- The label that a caption takes: the one inside its text, or else the one just behind it. -/
def captionLabel? (node : Node) (rest : List Node) : Option String :=
  match innerLabel? node with
  | some label => some label
  | none => labelBehind? rest

/-- The text that gives the element of a caption its id. -/
def captionMark : Target → String → String
  | .html, id => "<h4 id='" ++ id ++ "'>"
  | .quarto, id => "\n[]" ++ Quarto.attributes ("#" ++ id)

theorem captionOpen_eq (target : Target) {id : String} (some : id ≠ "") (title : String) :
    ∃ more, target.flavor.captionOpen id title = captionMark target id ++ more := by
  have full : id.isEmpty = false := by simpa using some
  cases target with
  | html =>
    simp only [Target.flavor, Html.flavor, Html.captionOpen, captionMark, full,
      Bool.false_eq_true, if_false]
    generalize (if title.isEmpty = true then "" else _) = shown
    exact ⟨"\n" ++ shown, by simp only [String.append_assoc]; rfl⟩
  | quarto =>
    simp only [Target.flavor, Quarto.flavor, Quarto.captionOpen, captionMark, full,
      Bool.false_eq_true, if_false]
    generalize (if title.isEmpty = true then "" else _) = shown
    exact ⟨shown, by simp only [← String.append_assoc]; rfl⟩

theorem trimEnd_captionMark (target : Target) (front id : String) :
    Text.trimEnd (front ++ captionMark target id) = front ++ captionMark target id := by
  cases target with
  | html =>
    refine Text.trimEnd_eq_self (c := '>') ?_ (by decide)
    simp only [captionMark, String.toList_append, List.getLast?_append]
    rfl
  | quarto =>
    refine Text.trimEnd_eq_self (c := '\x7d') ?_ (by decide)
    simp only [captionMark, Quarto.attributes, String.toList_append, List.getLast?_append]
    rfl

/-- A text without white space at its end stays in front. -/
theorem Frames.keeps (frames : Frames s t) {text : String} (solid : Text.trimEnd text = text)
    (front : text.toList <+: s.out.toList) : text.toList <+: t.out.toList := by
  rw [← solid] at front
  have kept := Text.trimEnd_prefix_trimEnd front
  rw [solid] at kept
  exact kept.trans frames.out_prefix

theorem labelId_ne_empty {label : String} (some : label ≠ "") : Reference.labelId label ≠ "" := by
  simpa [Reference.labelId] using some

theorem captionTitle_ok {label : String} {anchor title : String}
    (ran : captionTitle ctx (some label) s = (.ok (anchor, title), t)) :
    anchor = Reference.labelId label ∧ t.out = s.out := by
  cases known : ctx.labels.get? label <;>
    simp only [captionTitle, known] at ran <;> cases ran <;> exact ⟨rfl, rfl⟩

/-- A step that runs abreast of itself follows a course. -/
theorem frames_of_abreast {step : Walk Unit} (abreast : Abreast 0 ctx ctx Unrelated step step)
    {result : Except Fault Unit} (ran : step s = (result, t)) : Frames s t := by
  have frames := (abreast.left s).frames
  rwa [ran] at frames

theorem out_writeCaption {label : String} {step : Walk Unit} (some : label ≠ "")
    (abreast : Abreast 0 ctx ctx Unrelated step step)
    (ran : writeCaption ctx (.some label) step s = (.ok (), t)) :
    (s.out ++ captionMark ctx.target (Reference.labelId label)).toList <+: t.out.toList := by
  unfold writeCaption at ran
  obtain ⟨⟨anchor, title⟩, s₁, found, ran₁⟩ := bind_eq_ok ran
  obtain ⟨rfl, same⟩ := captionTitle_ok found
  obtain ⟨⟨⟩, s₂, ⟨⟩, ran₂⟩ := bind_eq_ok ran₁
  have frames := frames_of_abreast
    (.bind (.inlined abreast) fun _ _ _ => .write ctx.flavor.captionClose _) ran₂
  refine frames.keeps (trimEnd_captionMark ..) ?_
  obtain ⟨more, opened⟩ := captionOpen_eq ctx.target (labelId_ne_empty some) title
  change _ <+: (s₁.out ++ ctx.target.flavor.captionOpen (Reference.labelId label) title).toList
  rw [same, opened, ← String.append_assoc]
  exact Text.toList_prefix_append _ more

theorem abreast_inside (ctx : Context) (queue : List Node) :
    Abreast 0 ctx ctx Unrelated (nodes ctx queue) (nodes ctx queue) :=
  abreast_nodes (.refl ctx) queue

theorem out_caption {label : String} (some : label ≠ "")
    (taken : captionLabel? node rest = .some label)
    (ran : caption ctx (below ctx node rest) s = (.ok (), t)) :
    (s.out ++ captionMark ctx.target (Reference.labelId label)).toList <+: t.out.toList := by
  have inside := abreast_inside ctx
  unfold caption at ran
  split at ran
  · cases ran
  change (writeCaption ctx (captionLabel? node rest) _ >>= _) s = _ at ran
  rw [taken] at ran
  obtain ⟨⟨⟩, s₁, wrote, ran₁⟩ := bind_eq_ok ran
  have shown := out_writeCaption some (inside _) wrote
  have behind : Frames s₁ t := by
    refine frames_of_abreast (.ite (.bind (inside _) fun _ _ _ => .ite ?_ ?_) ?_) ran₁
    · exact .bind (.write _ _) fun _ _ _ => .bind (.inlined (inside _)) fun _ _ _ => .write _ _
    · exact .pure trivial
    · exact .pure trivial
  exact behind.keeps (trimEnd_captionMark ..) shown

/-! Floats. -/

theorem roleOf?_of_name {name : String} (named : node.name = name)
    (other : name ≠ "text" ∧ name ≠ "group" ∧ name ≠ "$" ∧ name ≠ "$$") :
    roleOf? node = some (.ofName name) := by
  subst named
  cases node with
  | command | environment => rfl
  | text => exact absurd rfl other.1
  | group => exact absurd rfl other.2.1
  | math display =>
    cases display
    · exact absurd rfl other.2.2.1
    · exact absurd rfl other.2.2.2

theorem labelBehind?_cons (named : node.name = "label") :
    labelBehind? (node :: rest) = labelOf? node := by
  have shown : node.isBlankOrComment = false := by
    cases node with
    | text => simp [Node.name] at named
    | command | environment | group | math => rfl
  simp only [labelBehind?, List.find?_cons, shown, Bool.not_false, named, if_true]

theorem named?_eq_some {name : String} {nodes : List Node} (found : named? name nodes = some node) :
    node.name = name := by
  simpa using List.find?_some found

/-- The caption of a float takes the label of the float, unless it holds another one. -/
theorem captionLabel?_of_float {children : List Node} {caption : Node} {label : String}
    (captioned : named? "caption" children = some caption)
    (labelled : floatLabel? children = some label)
    (alone : ∀ other, innerLabel? caption = some other → other = label) :
    captionLabel? caption (bringFront "label" (withoutNamed "caption" children)) =
      some label := by
  unfold captionLabel?
  split
  next other inside => rw [alone other inside]
  next none_ =>
    unfold floatLabel? at labelled
    split at labelled
    next own found =>
      obtain rfl := Option.some.inj labelled
      obtain ⟨node, first, read⟩ := Option.bind_eq_some_iff.mp found
      rw [bringFront, first, Option.toList_some, List.singleton_append,
        labelBehind?_cons (named?_eq_some first), read]
    next =>
      obtain ⟨_, first, found⟩ := Option.bind_eq_some_iff.mp labelled
      obtain rfl := Option.some.inj (captioned.symm.trans first)
      obtain ⟨arg, head, found⟩ := Option.bind_eq_some_iff.mp found
      have inside : caption.requiredNodes 0 = arg.nodes := by
        rw [Node.requiredNodes, ← List.head?_eq_getElem?, head]
        rfl
      rw [innerLabel?, inside] at none_
      exact nomatch none_.symm.trans found

/-- Where a walk starts with a caption, its id comes first. -/
theorem out_nodes_caption {label : String} (some : label ≠ "") (named : node.name = "caption")
    (taken : captionLabel? node rest = .some label)
    (ran : nodes ctx (node :: rest) s = (.ok (), t)) :
    (s.out ++ captionMark ctx.target (Reference.labelId label)).toList <+: t.out.toList := by
  rw [nodes, deeper] at ran
  obtain ⟨u, walked, rfl⟩ := within_eq_ok ran
  rw [neighbours_cons_meet] at walked
  obtain ⟨⟨⟩, u₁, met, behind⟩ := bind_eq_ok walked
  rw [meet, visit_of_role (roleOf?_of_name named (by decide))] at met
  have shown := out_caption some taken met
  have frames := frames_of_abreast (abreast_neighbours (.refl ctx) _) behind
  exact frames.keeps (trimEnd_captionMark ..) shown

theorem out_float {class_ label : String} {captionNode : Node} (some : label ≠ "")
    (captioned : named? "caption" node.children = .some captionNode)
    (taken : captionLabel? captionNode
      (bringFront "label" (withoutNamed "caption" node.children)) = .some label)
    (ran : float ctx (below ctx node rest) class_ s = (.ok (), t)) :
    ((s.closeParagraph ctx.flavor).out ++ ctx.flavor.blockOpen class_ ++
      captionMark ctx.target (Reference.labelId label)).toList <+: t.out.toList := by
  obtain ⟨⟨⟩, s₁, ⟨⟩, ran₁⟩ := bind_eq_ok ran
  obtain ⟨u, walked, rfl⟩ := within_eq_ok ran₁
  simp only [captionFirst, captioned, Option.toList_some, List.singleton_append] at walked
  have shown := out_nodes_caption some (named?_eq_some captioned) taken walked
  exact shown.trans (Text.toList_prefix_append u.out ctx.flavor.blockClose)

/-- What the link to a label has for a fragment is the id of the element that the label is on: of a
heading just in front of it, where the label is spelled as one of a heading, and otherwise of the
caption that takes it, on its own or at the front of a float. -/
theorem lands (ctx : Context) {label : String} {current : Nat} {resolved : Reference.Resolved}
    (found : Reference.resolve? ctx.labels label current ctx.target.extension = some resolved)
    {node : Node} {rest : List Node} {s t : State} (ran : meet ctx node rest s = (.ok (), t)) :
    let id := Reference.fragment resolved.href
    (Reference.IsOfHeading label → ∀ level, roleOf? node = some (.heading level) →
      Role.isStarred node.name = false → labelBehind? rest = some label →
      ∃ number title, t.out = (s.closeParagraph ctx.flavor).out ++
        ctx.flavor.headingOpen level id number ++ title ++ ctx.flavor.headingClose level id ∧
        (headingMark ctx.target level id).toList <:+:
          (ctx.flavor.headingOpen level id number ++ title ++
            ctx.flavor.headingClose level id).toList) ∧
    (¬ Reference.IsOfHeading label → label ≠ "" → roleOf? node = some .caption →
      captionLabel? node rest = some label →
      (s.out ++ captionMark ctx.target id).toList <+: t.out.toList) ∧
    (¬ Reference.IsOfHeading label → label ≠ "" → ∀ class_ caption,
      roleOf? node = some (.float class_) → named? "caption" node.children = some caption →
      floatLabel? node.children = some label →
      (∀ other, innerLabel? caption = some other → other = label) →
      ((s.closeParagraph ctx.flavor).out ++ ctx.flavor.blockOpen class_ ++
        captionMark ctx.target id).toList <+: t.out.toList) := by
  intro id
  obtain ⟨number, known, fragment⟩ := Reference.fragment_resolve found
  refine ⟨?_, ?_, ?_⟩
  · intro ofHeading level role unstarred behind
    rw [meet, visit_of_role role, perform, unstarred] at ran
    have id_eq : id = Reference.sectionAnchor number :=
      fragment.trans (Reference.anchorFor_of_isOfHeading ofHeading number)
    rw [id_eq]
    obtain ⟨title, written⟩ := out_heading behind known ran
    exact ⟨number, title, written, headingMark_infix ctx.target level _ number title⟩
  · intro other some role taken
    rw [meet, visit_of_role role, perform] at ran
    have id_eq : id = Reference.labelId label :=
      fragment.trans (Reference.anchorFor_of_not_isOfHeading other number)
    rw [id_eq]
    exact out_caption some taken ran
  · intro other some class_ caption role captioned labelled alone
    rw [meet, visit_of_role role, perform] at ran
    have id_eq : id = Reference.labelId label :=
      fragment.trans (Reference.anchorFor_of_not_isOfHeading other number)
    rw [id_eq]
    exact out_float some captioned (captionLabel?_of_float captioned labelled alone) ran

/-- A section, a caption, and a figure whose label stands in front of its caption. -/
theorem lands_of_section_and_figure :
    let mark (label : String) : Node := .command "label" [.mk .required [.text label] label]
    let title : Arg := .mk .required [.text "A"] "A"
    let head : Node := .command "section" [title]
    let caption : Node := .command "caption" [title]
    let figure : Node := .environment "figure" [] [mark "fig:b", .text " ", caption]
    let ctx : Context :=
      ⟨⟨[("sec:a", "1.1"), ("fig:b", "1.2")], []⟩, .empty, [], "", ⟨"", "", 0, 0, .offline⟩, .html, 1⟩
    let s := State.start ctx .empty
    (∃ number shown, (meet ctx head [mark "sec:a"] s).2.out =
      ctx.flavor.headingOpen .section_ "sec-1_1" number ++ shown ++
        ctx.flavor.headingClose .section_ "sec-1_1" ∧
      "\n<h2 id='sec-1_1'>".toList <:+:
        (ctx.flavor.headingOpen .section_ "sec-1_1" number ++ shown ++
          ctx.flavor.headingClose .section_ "sec-1_1").toList) ∧
    (captionMark .html "fig-b").toList <+: (meet ctx caption [mark "fig:b"] s).2.out.toList ∧
    ("\n<div class='figure'>\n" ++ captionMark .html "fig-b").toList <+:
      (meet ctx figure [] s).2.out.toList := by
  intro mark title head caption figure ctx s
  have section_ : Reference.resolve? ctx.labels "sec:a" 1 ctx.target.extension =
      some ⟨"1.1", "#sec-1_1"⟩ := by decide +kernel
  have figure_ : Reference.resolve? ctx.labels "fig:b" 1 ctx.target.extension =
      some ⟨"1.2", "#fig-b"⟩ := by decide +kernel
  have atHead : meet ctx head [mark "sec:a"] s = (.ok (), (meet ctx head [mark "sec:a"] s).2) :=
    Prod.ext (by decide +kernel) rfl
  have atCaption :
      meet ctx caption [mark "fig:b"] s = (.ok (), (meet ctx caption [mark "fig:b"] s).2) :=
    Prod.ext (by decide +kernel) rfl
  have atFigure : meet ctx figure [] s = (.ok (), (meet ctx figure [] s).2) :=
    Prod.ext (by decide +kernel) rfl
  refine ⟨?_, ?_, ?_⟩
  · exact (lands ctx section_ atHead).1 (by decide) .section_ rfl (by decide) (by decide)
  · exact (lands ctx figure_ atCaption).2.1 (by decide) (by decide) rfl (by decide)
  · exact (lands ctx figure_ atFigure).2.2 (by decide) (by decide) "figure" caption rfl rfl
      (by decide) (by rintro _ ⟨⟩)

/-- A heading gets its id from its number and a caption from its label, however the label is
spelled. So a link misses the heading of a label that is not spelled as one of a heading, and the
figure of a label that is. An empty label gives no id at all. -/
theorem misses_of_other_spelling :
    let mark (label : String) : Node := .command "label" [.mk .required [.text label] label]
    let title : Arg := .mk .required [.text "A"] "A"
    let figure (label : String) : Node :=
      .environment "figure" [] [.command "caption" [title], mark label]
    let labels : LabelIndex := ⟨[("intro", "1.1"), ("sec:x", "1.2"), ("", "1.3")], []⟩
    let ctx : Context := ⟨labels, .empty, [], "", ⟨"", "", 0, 0, .offline⟩, .html, 1⟩
    let fragment (label : String) : Option String :=
      (Reference.resolve? ctx.labels label 1 "html").map (Reference.fragment ·.href)
    let body (chapter : List Node) : Option String :=
      (render ctx .empty chapter).1.toOption.map (·.body)
    (labelBehind? [mark "intro"] = some "intro" ∧ fragment "intro" = some "intro" ∧
      body [.command "section" [title], mark "intro"] =
        some ("\n<h2 id='sec-1_1'><small class='text-muted'>" ++
          "<a class='anchor' href='#sec-1_1'>1.1</a></small> A</h2>\n")) ∧
    (floatLabel? (figure "sec:x").children = some "sec:x" ∧ fragment "sec:x" = some "sec-1_2" ∧
      body [figure "sec:x"] =
        some ("\n<div class='figure'>\n<h4 id='sec-x'>\n  <small class='text-muted'>" ++
          "<a class='anchor' href='#sec-x'>Section 1.2.</a></small><br />\nA</h4>\n\n</div>\n")) ∧
    (floatLabel? (figure "").children = some "" ∧ fragment "" = some "" ∧
      body [figure ""] =
        some ("\n<div class='figure'>\n<h4>\n  <small class='text-muted'>" ++
          "<a class='anchor' href='#'>1.3.</a></small><br />\nA</h4>\n\n</div>\n")) := by
  decide +kernel

end Walk
end Quire
