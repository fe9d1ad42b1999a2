import Quire.Proofs.Table.Returns
import Quire.Proofs.Walk.Course
import Quire.Proofs.Walk.Escaped
import Quire.Proofs.Walk.Reading
import Quire.Proofs.Walk.Returns
import Quire.Proofs.Walk.Spot

/-! Walking nodes that have carriage returns at their line ends. Each thing that a walk does is done
again, and it writes the same lines, as long as it looks up the same names. -/
namespace Quire

namespace Text

variable {cs ds : List Char}

def IsInert (c : Char) : Prop := isBlank c = false ∧ c ≠ '<' ∧ c ≠ '>'

theorem Relined.eq_of_left (relined : Relined cs ds) (inert : ∀ c ∈ cs, IsInert c) : ds = cs := by
  induction relined with
  | nil => rfl
  | same c _ ih => rw [ih (List.forall_mem_cons.mp inert).2]
  | feed => cases (inert '\n' List.mem_cons_self).1
  | after => exact absurd rfl (inert '>' List.mem_cons_self).2.2
  | before => exact absurd rfl (inert '<' List.mem_cons_self).2.1

theorem Relined.eq_of_right (relined : Relined cs ds) (inert : ∀ c ∈ ds, IsInert c) :
    ds = cs := by
  induction relined with
  | nil => rfl
  | same c _ ih => rw [ih (List.forall_mem_cons.mp inert).2]
  | feed => cases (inert '\r' List.mem_cons_self).1
  | after => exact absurd rfl (inert '>' List.mem_cons_self).2.2
  | before _ _ ih =>
    have behind := ih fun c member => inert c (List.mem_append_right _ member)
    subst behind
    exact absurd rfl (inert '<' (List.mem_append_right _ List.mem_cons_self)).2.1

/-- A word stands in both of two such texts or in none. -/
theorem SameLines.eq_word_iff {s t word : String} (same : SameLines s t)
    (inert : ∀ c ∈ word.toList, IsInert c) : t = word ↔ s = word := by
  constructor
  · rintro rfl
    exact (String.toList_inj.mp (same.eq_of_right inert)).symm
  · rintro rfl
    exact String.toList_inj.mp (same.eq_of_left inert)

end Text

namespace Walk

open Text (SameLines Feeds returned LineFree)

/-- A text without breaks is one paragraph. -/
theorem unbroken_iff {cs : List Char} : Unbroken cs ↔ (paragraphs cs).2 = [] := by
  refine ⟨fun unbroken => by rw [paragraphs_unbroken unbroken], fun one blanks blank inside => ?_⟩
  have found {cs : List Char} (starts : blanks ++ ['\n'] <+: cs) : breakLength? cs ≠ none := by
    obtain ⟨rest, rfl⟩ := starts
    have line : (blanks ++ '\n' :: rest).takeWhile (fun c => c == ' ' || c == '\t') = blanks := by
      rw [List.takeWhile_append_of_pos (by simpa using blank)]
      exact List.append_nil blanks
    rw [List.append_assoc, List.singleton_append]
    simp [breakLength?, line]
  induction cs with
  | nil => simp at inside
  | cons c cs ih =>
    rw [paragraphs] at one
    split at one
    · cases one
    next none_ =>
      rcases List.infix_cons_iff.mp inside with starts | later
      · obtain ⟨rfl, behind⟩ := List.cons_prefix_cons.mp starts
        exact found behind (by simpa using none_)
      · exact ih one later

instance (cs : List Char) : Decidable (Unbroken cs) := decidable_of_iff _ unbroken_iff.symm

/-- Paragraphs are never parted in a text with carriage returns. -/
theorem unbroken_returned (cs : List Char) : Unbroken (returned cs) := by
  have starts (cs : List Char) : (returned cs).head? ≠ some '\n' := by
    cases cs with
    | nil => simp
    | cons c cs =>
      by_cases feed : c = '\n'
      · subst feed
        simp
      · simp [Text.returned_cons feed, feed]
  have before {c : Char} (cs : List Char) (pair : [c, '\n'] <:+: returned cs) : c = '\r' := by
    have head {d : Char} {cs : List Char} (pair : [c, '\n'] <+: d :: returned cs) : False := by
      obtain ⟨-, more⟩ := List.cons_prefix_cons.mp pair
      obtain ⟨rest, split⟩ := more
      exact starts cs (by rw [← split]; rfl)
    induction cs with
    | nil => simp at pair
    | cons d cs ih =>
      by_cases feed : d = '\n'
      · subst feed
        rw [Text.returned_feed, List.infix_cons_iff, List.infix_cons_iff] at pair
        rcases pair with pair | pair | pair
        · exact (List.cons_prefix_cons.mp pair).1
        · exact (head pair).elim
        · exact ih pair
      · rw [Text.returned_cons feed, List.infix_cons_iff] at pair
        rcases pair with pair | pair
        · exact (head pair).elim
        · exact ih pair
  intro blanks blank inside
  rcases List.eq_nil_or_concat' blanks with rfl | ⟨front, c, rfl⟩
  · exact absurd (before cs inside) (by decide)
  · have pair : [c, '\n'] <:+: '\n' :: (front ++ [c] ++ ['\n']) :=
      ⟨'\n' :: front, [], by simp⟩
    obtain rfl := before cs (pair.trans inside)
    exact absurd (blank '\r' (by simp)) (by decide)

theorem isDots_eq {s t : String} (same : SameLines s t) : isDots t = isDots s := by
  have word : ∀ word ∈ ["\\cdots", "\\ldots", "\\dots"], (Text.trim t = word ↔ Text.trim s = word) := by
    intro word member
    refine same.trim.eq_word_iff ?_
    have inert : ["\\cdots", "\\ldots", "\\dots"].all (fun word => word.toList.all fun c =>
      !Text.isBlank c && c != '<' && c != '>') = true := by decide
    intro c inside
    have plain := List.all_eq_true.mp (List.all_eq_true.mp inert word member) c inside
    simpa [Text.IsInert, and_assoc] using plain
  rw [Bool.eq_iff_iff, isDots, isDots, List.contains_iff_mem, List.contains_iff_mem]
  constructor
  · intro member
    rwa [(word _ member).mp rfl]
  · intro member
    rwa [(word _ member).mpr rfl]

section Code

variable {s t : String}

theorem toList_escape_blank {white : List Char} (blank : ∀ c ∈ white, Text.isBlank c = true) :
    white.flatMap Html.entity = white := by
  induction white with
  | nil => rfl
  | cons c white ih =>
    obtain ⟨first, blank⟩ := List.forall_mem_cons.mp blank
    have other {d : Char} (solid : Text.isBlank d = false) : c ≠ d := by
      rintro rfl
      exact absurd (solid.symm.trans first) (by decide)
    rw [List.flatMap_cons, ih blank, Html.entity, if_neg (other rfl), if_neg (other rfl),
      if_neg (other rfl), if_neg (other rfl)]
    rfl

/-- Code without the line feeds at its ends keeps more white space there. -/
theorem feeds_trimLineFeeds (feeds : Feeds s.toList t.toList) :
    ∃ front kept back, (trimLineFeeds t).toList = front ++ (kept ++ back) ∧
      (∀ c ∈ front, Text.isBlank c = true) ∧ (∀ c ∈ back, Text.isBlank c = true) ∧
      Feeds (trimLineFeeds s).toList kept := by
  have feed_only (c : Char) : isLineFeed c = true ↔ c = '\n' := by simp [isLineFeed]
  obtain ⟨front, inner, dropped, front_blank, behind⟩ := feeds.dropWhile feed_only
  obtain ⟨kept, back, dropped', back_blank, feeds⟩ := behind.dropEndWhile feed_only
  rw [trimLineFeeds, trimLineFeeds, String.toList_ofList, String.toList_ofList, dropped,
    Text.dropEndWhile_append]
  split
  next gone =>
    rw [gone] at dropped'
    obtain ⟨rfl, rfl⟩ := List.append_eq_nil_iff.mp dropped'.symm
    refine ⟨Text.dropEndWhile isLineFeed front, [], [], by simp, fun c member => ?_, by simp, feeds⟩
    exact front_blank c ((List.rdropWhile_prefix isLineFeed front).subset member)
  next => exact ⟨front, kept, back, by rw [dropped'], front_blank, back_blank, feeds⟩

theorem sameLines_codeBlock (feeds : Feeds s.toList t.toList) (language : Option String) :
    SameLines (Html.codeBlock (trimLineFeeds s) language)
      (Html.codeBlock (trimLineFeeds t) language) := by
  obtain ⟨front, kept, back, chars, front_blank, back_blank, feeds⟩ := feeds_trimLineFeeds feeds
  obtain ⟨opening, opens⟩ : ∃ opening, ∀ code, (Html.codeBlock code language).toList =
      opening ++ '>' :: ((Html.escape code).toList ++ '<' :: "/pre>\n".toList) := by
    cases language with
    | none => exact ⟨"\n<pre".toList, fun code => by simp [Html.codeBlock]⟩
    | some language =>
      exact ⟨"\n<pre class='language-".toList ++ language.toList ++ ['\''],
        fun code => by simp [Html.codeBlock]⟩
  rw [SameLines, opens, opens]
  have escaped : (Html.escape (trimLineFeeds t)).toList =
      front ++ (kept.flatMap Html.entity ++ back) := by
    rw [Html.toList_escape, chars, List.flatMap_append, List.flatMap_append,
      toList_escape_blank front_blank, toList_escape_blank back_blank]
  rw [escaped, Html.toList_escape, List.append_assoc, List.append_assoc]
  exact .element front_blank back_blank (feeds.flatMap rfl rfl).relined

end Code

/-- The walk of nodes with carriage returns follows the walk without them. -/
def Rewalks (ctx : Context) (place : Place) (queue : List Node) : Prop :=
  Follows place Unrelated (nodes ctx queue) (nodes ctx (queue.map Node.withReturns))

section Handlers

variable {ctx : Context} {place : Place} {node : Node} {rest rest' : List Node}

theorem Follows.andThen {f g f' g' : Walk Unit} (first : Follows place Unrelated f g)
    (second : Follows place Unrelated f' g') :
    Follows place Unrelated (do f; f') (do g; g') :=
  .bind first fun _ _ _ => second

theorem follows_argument {n : Nat} (inside : Rewalks ctx place (node.requiredNodes n)) :
    Follows place Unrelated (argument (below ctx node rest) n)
      (argument (below ctx node.withReturns rest') n) := by
  unfold argument below
  rw [Node.requiredNodes_withReturns]
  exact inside

theorem follows_children (inside : Rewalks ctx place node.children) :
    Follows place Unrelated (nodes ctx node.children) (nodes ctx node.withReturns.children) := by
  rw [Node.children_withReturns]
  exact inside

/-- The only argument of a node, with its carriage returns. -/
theorem follows_onlyArg : Follows place (fun a b => node.required = [a] ∧ b = a.withReturns)
    (rendering node.onlyArg) (rendering node.withReturns.onlyArg) :=
  .rendering fun _ only => ⟨_, Node.onlyArg_withReturns only, Node.onlyArg_eq_ok only, rfl⟩

/-- The arguments of a node that it looks something up by stand on one line. -/
def TextsOnLine (node : Node) : Prop := ∀ arg ∈ node.required, LineFree arg.text.toList

theorem text_onlyArg {arg : Arg} (line : TextsOnLine node) (only : node.required = [arg]) :
    arg.withReturns.text = arg.text := by
  rw [Arg.text_withReturns, Text.withReturns_eq_self]
  exact (line arg (only ▸ List.mem_singleton_self arg)).2

theorem follows_markup (m : Markup) (inside : Rewalks ctx place.inlined (node.requiredNodes 0)) :
    Follows place Unrelated (markup ctx (below ctx node rest) m)
      (markup ctx (below ctx node.withReturns rest') m) :=
  .andThen .openParagraph <| .andThen (.write (.refl _)) <|
    .andThen (.inlined (follows_argument inside)) (.write (.refl _))

theorem follows_fixed (html quarto : String) :
    Follows place Unrelated (fixed ctx html quarto) (fixed ctx html quarto) :=
  .andThen .openParagraph (.write (.refl _))

theorem follows_math (html : ctx.target = .html) (display : Bool) {tex tex' : String}
    (feeds : Feeds tex.toList tex'.toList) :
    Follows place Unrelated (math ctx display tex) (math ctx display tex') := by
  have escaped (front back : String) :
      SameLines (front ++ Html.escape tex ++ back) (front ++ Html.escape tex' ++ back) :=
    ((SameLines.refl front).append (.of_feeds feeds.escape)).append (.refl back)
  unfold math
  rw [flavor_html html]
  refine .bind .get ?_
  rintro s t ⟨-, twins⟩
  have table_eq : t.table = s.table := by
    cases twins
    rfl
  rw [table_eq, isDots_eq (.of_feeds feeds)]
  split
  · refine .andThen .openParagraph (.write ?_)
    split
    · exact .refl _
    · exact escaped "\\(" "\\)"
  split
  · exact .andThen .closeParagraph (.write (escaped "\\[" "\\]"))
  · exact .andThen .openParagraph (.write (escaped "\\(" "\\)"))

theorem follows_equation (html : ctx.target = .html) (name : Option String) :
    Follows place Unrelated (equation ctx node name) (equation ctx node.withReturns name) := by
  have feeds := Node.feeds_sourceOf node.children
  rw [← Node.children_withReturns] at feeds
  unfold equation
  refine follows_math html true ?_
  cases name with
  | none => exact feeds
  | some name =>
    simp only [String.toList_append]
    exact ((Feeds.refl _).append feeds).append (.refl _)

theorem follows_reference (line : TextsOnLine node) :
    Follows place Unrelated (reference ctx node) (reference ctx node.withReturns) := by
  unfold reference
  refine .bind follows_onlyArg ?_
  rintro arg _ ⟨only, rfl⟩
  dsimp only
  rw [Node.name_withReturns, text_onlyArg line only]
  refine .andThen .openParagraph ?_
  split
  · exact .write (.refl _)
  · exact .andThen (.write (.refl _)) (.record _ _)

theorem follows_footnote (inside : Rewalks ctx .text (node.requiredNodes 0)) :
    Follows place Unrelated (footnote ctx (below ctx node rest))
      (footnote ctx (below ctx node.withReturns rest')) := by
  unfold footnote
  refine .bind follows_onlyArg fun _ _ _ => ?_
  refine .bind (.asText (follows_argument inside)) fun body body' same => ?_
  have noted : Follows place Unrelated
      (modify fun s => { s with footnotes := s.footnotes ++ [Text.trim body] })
      (modify fun s => { s with footnotes := s.footnotes ++ [Text.trim body'] }) := by
    refine .modify fun s t here twins => ⟨here, ?_⟩
    obtain ⟨out_same, notes_same⟩ := twins
    exact .mk { s with footnotes := s.footnotes ++ [Text.trim body] } out_same
      (List.rel_append notes_same (.cons same.trim .nil))
  have marked : Follows place Unrelated (modify (·.mark ctx.flavor body))
      (modify (·.mark ctx.flavor body')) := by
    refine .modify fun s t here twins => ⟨here, ?_⟩
    obtain ⟨out_same, notes_same⟩ := twins
    have number := notes_same.length_eq
    simp only [State.mark]
    rw [← number]
    exact .mk (s.mark ctx.flavor body) (out_same.append (.refl _)) notes_same
  exact .andThen noted (.andThen .openParagraph marked)

theorem dropScheme_returned (url : List Char) : dropScheme (returned url) = returned (dropScheme url) := by
  have free := Text.free_takeWhile (p := Char.isLower) rfl rfl url
  have scheme : (returned url).takeWhile Char.isLower = url.takeWhile Char.isLower := by
    rw [Text.takeWhile_returned rfl, free.returned]
  have behind : (returned url).drop (url.takeWhile Char.isLower).length =
      returned (url.drop (url.takeWhile Char.isLower).length) :=
    Text.drop_returned_of_free (by rwa [Text.take_takeWhile])
  unfold dropScheme
  dsimp only
  rw [scheme]
  split
  · rfl
  · rw [behind, Text.isPrefixOf?_returned (by decide)]
    cases "://".toList.isPrefixOf? (url.drop (url.takeWhile Char.isLower).length) <;> rfl

theorem sameLines_link {href href' text text' : String} (href_same : SameLines href href')
    (text_same : SameLines text text') : SameLines (Html.link href text) (Html.link href' text') := by
  have opened := (SameLines.refl "<a href='").append href_same
  exact ((opened.append (.refl "'>")).append text_same).append (.refl "</a>")

theorem follows_url (html : ctx.target = .html) :
    Follows place Unrelated (url ctx node) (url ctx node.withReturns) := by
  unfold url
  refine .bind follows_onlyArg ?_
  rintro arg _ ⟨-, rfl⟩
  refine .andThen .openParagraph (.write ?_)
  rw [html, flavor_html html, Arg.text_withReturns, Text.toList_withReturns, dropScheme_returned]
  refine sameLines_link (.withReturns _) (.of_feeds (Feeds.escape ?_))
  rw [String.toList_ofList, String.toList_ofList]
  exact .returned _

/-- The first of two arguments, with its carriage returns. -/
theorem follows_firstOfTwo : Follows place (fun a b => b = Text.withReturns a)
    (rendering (firstOfTwo node)) (rendering (firstOfTwo node.withReturns)) := by
  refine .rendering fun address found => ?_
  obtain ⟨args, exact_, rfl⟩ := exists_of_map_ok found
  refine ⟨_, congrArg (Except.map _) (Node.exactArgs_withReturns exact_), ?_⟩
  cases args <;> simp

theorem follows_href (html : ctx.target = .html) (inside : Rewalks ctx .text (node.requiredNodes 1)) :
    Follows place Unrelated (href ctx (below ctx node rest))
      (href ctx (below ctx node.withReturns rest')) := by
  unfold href
  refine .bind follows_firstOfTwo ?_
  rintro address _ rfl
  refine .bind (.asText (follows_argument inside)) fun shown shown' same => ?_
  rw [flavor_html html]
  exact .andThen .openParagraph (.write (sameLines_link (.withReturns _) same.trim))

theorem follows_colored (html : ctx.target = .html) {color color' text text' : String}
    (color_same : SameLines color color') (text_same : SameLines text text') :
    Follows place Unrelated (colored ctx color text) (colored ctx color' text') := by
  unfold colored
  rw [text_same.allBlank_eq, flavor_html html]
  split
  · exact .pure trivial
  · refine .andThen .openParagraph (.write (.join ?_))
    exact .cons (.refl _) (.cons color_same (.cons (.refl _) (.cons text_same (.cons (.refl _) .nil))))

theorem follows_color (html : ctx.target = .html) (inside : Rewalks ctx .text rest) :
    Follows place Unrelated (color ctx (below ctx node rest))
      (color ctx (below ctx node.withReturns (rest.map Node.withReturns))) := by
  unfold color
  refine .bind follows_onlyArg ?_
  rintro arg _ ⟨-, rfl⟩
  refine .bind (.asText inside) fun text text' same => follows_colored html ?_ same
  rw [Arg.text_withReturns]
  exact .withReturns _

theorem follows_coloredText (html : ctx.target = .html)
    (inside : Rewalks ctx .text (node.requiredNodes 1)) :
    Follows place Unrelated (coloredText ctx (below ctx node rest))
      (coloredText ctx (below ctx node.withReturns rest')) := by
  unfold coloredText
  refine .bind follows_firstOfTwo ?_
  rintro name _ rfl
  exact .bind (.asText (follows_argument inside)) fun _ _ same =>
    follows_colored html (.withReturns _) same

theorem follows_verb : Follows place Unrelated (verb ctx node) (verb ctx node.withReturns) := by
  unfold verb
  refine .bind follows_onlyArg ?_
  rintro arg _ ⟨-, rfl⟩
  rw [Arg.text_withReturns, Text.count?_withReturns]
  split
  · exact .fail _
  · exact .andThen .openParagraph (.write (.refl _))

theorem withReturns_of_line {found : Option String} (line : ∀ text ∈ found, LineFree text.toList) :
    found.map Text.withReturns = found := by
  cases found with
  | none => rfl
  | some text => rw [Option.map_some, Text.withReturns_eq_self (line text rfl).2]

theorem follows_headingNumber (level : Level) (same : labelBehind? rest' = labelBehind? rest) :
    Follows place Eq (headingNumber ctx level rest) (headingNumber ctx level rest') := by
  intro s t here twins number s' ran
  obtain ⟨out_same, notes_same⟩ := twins
  cases ran
  unfold headingNumber
  rw [same]
  exact ⟨here, _, _, rfl, rfl, .mk { s with counters := s.counters.bump level } out_same notes_same⟩

theorem follows_heading (level : Level) (starred : Bool)
    (titled : starred = true → TextsOnLine node)
    (labelled : starred = false → ∀ label ∈ labelBehind? rest, LineFree label.toList)
    (inside : Rewalks ctx place.inlined (node.requiredNodes 0)) :
    Follows place Unrelated (heading ctx (below ctx node rest) level starred)
      (heading ctx (below ctx node.withReturns (rest.map Node.withReturns)) level starred) := by
  unfold heading
  refine .bind follows_onlyArg ?_
  rintro arg _ ⟨only, rfl⟩
  refine .andThen .closeParagraph ?_
  have shown (anchor number : String) : Follows place Unrelated
      (do
        write (ctx.flavor.headingOpen level anchor number)
        inlined (argument (below ctx node rest) 0)
        write (ctx.flavor.headingClose level anchor))
      (do
        write (ctx.flavor.headingOpen level anchor number)
        inlined (argument (below ctx node.withReturns (rest.map Node.withReturns)) 0)
        write (ctx.flavor.headingClose level anchor)) :=
    .andThen (.write (.refl _)) (.andThen (.inlined (follows_argument inside)) (.write (.refl _)))
  cases starred with
  | true =>
    rw [text_onlyArg (titled rfl) only]
    exact shown (titleAnchor arg.text) ""
  | false =>
    refine .bind (p := Eq) (follows_headingNumber level ?_) ?_
    · rw [labelBehind?_withReturns, withReturns_of_line (labelled rfl)]
    · rintro number _ rfl
      exact shown (Reference.sectionAnchor number) number

theorem follows_list (inside : Rewalks ctx place node.children) :
    Follows place Unrelated (list ctx (below ctx node rest))
      (list ctx (below ctx node.withReturns rest')) := by
  unfold list
  rw [Node.name_withReturns]
  exact .andThen .closeParagraph <| .andThen (.write (.refl _)) <|
    .andThen (.listed _ (follows_children inside)) (.write (.refl _))

theorem follows_childrenInline (inside : Rewalks ctx place.inlined (trimFront node.children)) :
    Follows place Unrelated (childrenInline (below ctx node rest))
      (childrenInline (below ctx node.withReturns rest')) := by
  unfold childrenInline below
  rw [Node.children_withReturns, trimFront_withReturns]
  exact .inlined inside

theorem itemTitle?_below : itemTitle? ctx (below ctx node rest) =
    match node.optionalArg? with
    | .error e => fail (.render e)
    | .ok none => pure none
    | .ok (some arg) => do
      let title ← asText ctx (nodes ctx arg.nodes)
      return some (Text.trim title) := by
  unfold itemTitle?
  split <;> simp only [*]
  rfl

theorem follows_itemTitle?
    (inside : ∀ arg, node.optionalArg? = .ok (some arg) → Rewalks ctx .text arg.nodes) :
    Follows place (Option.Rel SameLines) (itemTitle? ctx (below ctx node rest))
      (itemTitle? ctx (below ctx node.withReturns rest')) := by
  rw [itemTitle?_below, itemTitle?_below]
  match found : node.optionalArg? with
  | .error e => exact .fail _
  | .ok none =>
    rw [Node.optionalArg?_withReturns found]
    exact .pure .none
  | .ok (some arg) =>
    rw [Node.optionalArg?_withReturns found, Option.map_some]
    dsimp only
    rw [Node.nodes_arg_withReturns]
    exact .bind (.asText (inside arg found)) fun _ _ same => .pure (.some same.trim)

theorem sameLines_itemOpen (kind : ListKind) {title title' : Option String}
    (same : Option.Rel SameLines title title') :
    SameLines (Html.itemOpen kind title) (Html.itemOpen kind title') := by
  have opened {title title' : String} (same : SameLines title title') (front back : String) :
      SameLines (front ++ title ++ back) (front ++ title' ++ back) :=
    ((SameLines.refl front).append same).append (.refl back)
  cases same with
  | none => exact .refl _
  | some same =>
    cases kind
    · exact opened same "\n  <li><strong>" "</strong> "
    · exact opened same "\n  <li><strong>" "</strong> "
    · exact opened same "\n  <dt>" "</dt><dd>"

theorem follows_item (html : ctx.target = .html)
    (title : ∀ arg, node.optionalArg? = .ok (some arg) → Rewalks ctx .text arg.nodes)
    (inside : Rewalks ctx place.inlined (trimFront node.children)) :
    Follows place Unrelated (item ctx (below ctx node rest))
      (item ctx (below ctx node.withReturns rest')) := by
  unfold item
  rw [flavor_html html]
  refine .bind .get ?_
  rintro s t ⟨-, twins⟩
  have lists_eq : t.lists = s.lists := by
    cases twins
    rfl
  rw [lists_eq]
  refine .bind (follows_itemTitle? title) fun title title' same => ?_
  exact .andThen (.write (sameLines_itemOpen _ same)) <|
    .andThen (follows_childrenInline inside) (.write (.refl _))

theorem follows_lead (text : String) : Follows place Unrelated (lead ctx text) (lead ctx text) :=
  .andThen (.write (.refl _)) (.andThen (.write (.refl _)) (.write (.refl _)))

theorem follows_objectives (inside : Rewalks ctx place node.children) :
    Follows place Unrelated (objectives ctx (below ctx node rest))
      (objectives ctx (below ctx node.withReturns rest')) :=
  .andThen .closeParagraph <| .andThen (.write (.refl _)) <| .andThen (follows_lead _) <|
    .andThen (follows_list inside) (.write (.refl _))

theorem follows_abstractBlock (title : Rewalks ctx place.inlined (node.requiredNodes 0))
    (inside : Rewalks ctx place.inlined (trimFront node.children)) :
    Follows place Unrelated (abstractBlock ctx (below ctx node rest))
      (abstractBlock ctx (below ctx node.withReturns rest')) := by
  unfold abstractBlock
  have body : Follows place Unrelated
      (do childrenInline (below ctx node rest); write ctx.flavor.blockClose)
      (do childrenInline (below ctx node.withReturns rest'); write ctx.flavor.blockClose) :=
    .andThen (follows_childrenInline inside) (.write (.refl _))
  rw [Node.requiredNodes_withReturns]
  dsimp only
  rw [all_isBlank_withReturns]
  refine .andThen .closeParagraph (.andThen (.write (.refl _)) ?_)
  split
  · exact .andThen (.write (.refl _)) <| .andThen (.inlined (follows_argument title)) <|
      .andThen (.write (.refl _)) <| .andThen (.write (.refl _)) body
  · exact body

theorem follows_keywordBlock (words : Rewalks ctx place.inlined (node.requiredNodes 0))
    (inside : Rewalks ctx place.inlined (trimFront node.children)) :
    Follows place Unrelated (keywordBlock ctx (below ctx node rest))
      (keywordBlock ctx (below ctx node.withReturns rest')) :=
  .andThen .closeParagraph <| .andThen (.write (.refl _)) <| .andThen (follows_lead _) <|
    .andThen (.write (.refl _)) <| .andThen (.inlined (follows_argument words)) <|
    .andThen (follows_childrenInline inside) (.write (.refl _))

theorem follows_feature (inside : Rewalks ctx place.blocked node.children) :
    Follows place Unrelated (feature ctx (below ctx node rest))
      (feature ctx (below ctx node.withReturns rest')) :=
  .andThen .closeParagraph <| .andThen (.write (.refl _)) <|
    .andThen (.blocked (follows_children inside)) (.write (.refl _))

theorem follows_verbatim (html : ctx.target = .html) (line : node.OptionsOnLine) :
    Follows place Unrelated (verbatim ctx node) (verbatim ctx node.withReturns) := by
  unfold verbatim
  rw [flavor_html html, Node.children_withReturns]
  refine .bind (p := Eq) (.ofExcept fun options found => ?_) ?_
  · exact ⟨options, Node.options_withReturns line found, rfl⟩
  · rintro options _ rfl
    exact .andThen .closeParagraph
      (.write (sameLines_codeBlock (Node.feeds_sourceOf node.children) _))

theorem follows_dirtree : Follows place Unrelated (dirtree ctx node) (dirtree ctx node.withReturns) := by
  unfold dirtree
  refine .bind follows_onlyArg ?_
  rintro arg _ ⟨-, rfl⟩
  rw [Arg.raw_withReturns, treeEntries_withReturns]
  refine .bind (p := Eq) (.rendering fun entries read => ⟨entries, read, rfl⟩) ?_
  rintro entries _ rfl
  exact .andThen .closeParagraph (.write (.refl _))

theorem follows_float (class_ : String)
    (line : ∀ label ∈ floatLabel? node.children, LineFree label.toList)
    (inside : Rewalks ctx place (captionFirst node.children)) :
    Follows place Unrelated (float ctx (below ctx node rest) class_)
      (float ctx (below ctx node.withReturns rest') class_) := by
  unfold float below
  rw [Node.children_withReturns, floatLabel?_withReturns, withReturns_of_line line,
    captionFirst_withReturns]
  exact .andThen .closeParagraph (.floated class_ _ inside)

theorem follows_captionTitle (label : Option String) :
    Follows place Eq (captionTitle ctx label) (captionTitle ctx label) := by
  unfold captionTitle
  cases label with
  | none => exact .pure rfl
  | some label =>
    dsimp only
    cases ctx.labels.get? label with
    | some number => exact .bind (p := Eq) (.pure rfl) (by rintro _ _ rfl; exact .pure rfl)
    | none =>
      refine .bind (p := Eq) (.bind (.record _ _) fun _ _ _ => .pure rfl) ?_
      rintro _ _ rfl
      exact .pure rfl

theorem follows_writeCaption (label : Option String) {text text' : Walk Unit}
    (inside : Follows place.inlined Unrelated text text') :
    Follows place Unrelated (writeCaption ctx label text) (writeCaption ctx label text') := by
  unfold writeCaption
  refine .bind (follows_captionTitle label) ?_
  rintro title _ rfl
  exact .andThen (.write (.refl _)) (.andThen (.inlined inside) (.write (.refl _)))

theorem follows_caption (line : ∀ label ∈ captionLabel? node rest, LineFree label.toList)
    (text : Rewalks ctx place.inlined (node.requiredNodes 0))
    (body : Rewalks ctx place (node.requiredNodes 1))
    (notes : Rewalks ctx place.inlined (node.requiredNodes 2)) :
    Follows place Unrelated (caption ctx (below ctx node rest))
      (caption ctx (below ctx node.withReturns (rest.map Node.withReturns))) := by
  unfold caption
  dsimp only
  rw [Node.required_withReturns, List.length_map, Node.requiredNodes_withReturns node 2,
    all_isBlank_withReturns]
  split
  · exact .fail _
  refine .andThen ?_ ?_
  · rw [Node.requiredNodes_withReturns, namedLabel_withReturns, labelBehind?_withReturns]
    unfold captionLabel? innerLabel? at line
    cases named : named? "label" (node.requiredNodes 0) >>= labelOf? with
    | some label =>
      rw [named] at line
      rw [Option.map_some, Text.withReturns_eq_self (line label rfl).2]
      exact follows_writeCaption _ (follows_argument text)
    | none =>
      rw [named] at line
      rw [withReturns_of_line line]
      exact follows_writeCaption _ (follows_argument text)
  split
  · refine .andThen (follows_argument body) ?_
    split
    · exact .andThen (.write (.refl _)) <| .andThen (.inlined (follows_argument notes)) <|
        .write (.refl _)
    · exact .pure trivial
  · exact .pure trivial

theorem follows_graphics (line : TextsOnLine node) :
    Follows place Unrelated (graphics ctx node) (graphics ctx node.withReturns) := by
  unfold graphics
  refine .bind follows_onlyArg ?_
  rintro arg _ ⟨only, rfl⟩
  dsimp only
  rw [text_onlyArg line only]
  refine .andThen .openParagraph ?_
  split
  · exact .write (.refl _)
  · refine .bind (.onDisk _) ?_
    rintro image _ rfl
    exact .write (.refl _)

theorem follows_drawing (line : LineFree node.source.toList) :
    Follows place Unrelated (drawing ctx node) (drawing ctx node.withReturns) := by
  have source_eq : node.withReturns.source = node.source :=
    String.toList_inj.mp ((Node.feeds_source node).eq_of_line line.2)
  unfold drawing
  rw [source_eq]
  have counted : Follows place Unrelated (modify fun s => { s with drawings := s.drawings + 1 })
      (modify fun s => { s with drawings := s.drawings + 1 }) := by
    refine .modify fun s t here twins => ⟨here, ?_⟩
    obtain ⟨out_same, notes_same⟩ := twins
    exact .mk { s with drawings := s.drawings + 1 } out_same notes_same
  refine .andThen counted (.bind .get ?_)
  rintro s t ⟨-, twins⟩
  have name_eq : drawingName ctx t = drawingName ctx s := by
    cases twins
    rfl
  rw [name_eq]
  refine .bind (.onDisk _) ?_
  rintro image _ rfl
  exact .andThen .openParagraph (.write (.refl _))

theorem columnSpec_withReturns {spec : String} (found : columnSpec node = .ok spec) :
    columnSpec node.withReturns = .ok (Text.withReturns spec) := by
  unfold columnSpec at found ⊢
  rw [Node.name_withReturns]
  split at found
  next wide =>
    obtain ⟨args, exact_, rfl⟩ := exists_of_map_ok found
    rw [if_pos wide, Node.exactArgs_withReturns exact_]
    simp only [Except.map, List.getElem?_map]
    cases args[1]? <;> simp
  next narrow =>
    obtain ⟨arg, only, rfl⟩ := exists_of_map_ok found
    rw [if_neg narrow, Node.onlyArg_withReturns only]
    simp [Except.map]

theorem follows_table (inside : Rewalks ctx place.tabled node.children) :
    Follows place Unrelated (table ctx (below ctx node rest))
      (table ctx (below ctx node.withReturns rest')) := by
  unfold table
  refine .bind (p := fun spec spec' => spec' = Text.withReturns spec)
    (.rendering fun spec found => ⟨_, columnSpec_withReturns found, rfl⟩) ?_
  rintro spec _ rfl
  rw [Table.countColumns_withReturns]
  exact .andThen .closeParagraph (.tabled _ (follows_children inside))

theorem cellSpan_withReturns {span : Nat} (found : cellSpan node = .ok span) :
    cellSpan node.withReturns = .ok span := by
  cases exact_ : node.exactArgs 3 with
  | error e => simp [cellSpan, exact_, bind, Except.bind] at found
  | ok args =>
    have first : ((args.map Arg.withReturns).head?.map Arg.text).getD "" =
        Text.withReturns ((args.head?.map Arg.text).getD "") := by
      cases args <;> simp
    simp only [cellSpan, exact_, Node.exactArgs_withReturns exact_, bind, Except.bind, first,
      Text.count?_withReturns] at found ⊢
    cases counted : Text.count? ((args.head?.map Arg.text).getD "") with
    | none =>
      rw [counted] at found
      cases found
    | some span' =>
      rw [counted] at found
      exact found

theorem follows_wideCell (inside : Rewalks ctx place.inlined (node.requiredNodes 2)) :
    Follows place Unrelated (wideCell (below ctx node rest))
      (wideCell (below ctx node.withReturns rest')) := by
  unfold wideCell
  refine .bind (p := Eq) (.rendering fun span found => ⟨span, cellSpan_withReturns found, rfl⟩) ?_
  rintro span _ rfl
  exact .andThen (.layTable _) (.inlined (follows_argument inside))

section Citations

theorem entries_withReturns {keys : String} {bib : Bibliography}
    (line : ∀ key ∈ (Text.splitOn ',' keys).map Text.trim, LineFree key.toList) :
    Citation.entries (Text.withReturns keys) bib = Citation.entries keys bib := by
  have same : (Text.splitOn ',' (Text.withReturns keys)).map Text.trim =
      (Text.splitOn ',' keys).map Text.trim := by
    have trimmed : (Text.splitOn ',' (Text.withReturns keys)).map Text.trim =
        ((Text.splitOn ',' keys).map Text.trim).map Text.withReturns := by
      rw [Text.splitOn, Text.toList_withReturns, Text.splitChars_returned rfl rfl, Text.splitOn]
      simp [Function.comp_def, ← Text.withReturns_ofList]
    rw [trimmed]
    conv_rhs => rw [← List.map_id ((Text.splitOn ',' keys).map Text.trim)]
    exact List.map_congr_left fun key member => Text.withReturns_eq_self (line key member).2
  rw [Citation.entries, same, Citation.entries]

theorem notes_withReturns {args : List Arg} {notes : List String}
    (read : args.mapM (fun arg => Prose.normalize .html arg.text) = .ok notes) :
    (args.map Arg.withReturns).mapM (fun arg => Prose.normalize .html arg.text) =
      .ok (notes.map Text.withReturns) := by
  induction args generalizing notes with
  | nil =>
    cases read
    rfl
  | cons arg args ih =>
    rw [List.mapM_cons] at read
    cases first : Prose.normalize .html arg.text with
    | error e =>
      rw [first] at read
      cases read
    | ok note =>
      cases more : args.mapM fun arg => Prose.normalize .html arg.text with
      | error e =>
        rw [first, more] at read
        cases read
      | ok notes' =>
        rw [first, more] at read
        cases read
        rw [List.map_cons, List.mapM_cons, Arg.text_withReturns,
          Prose.normalize_withReturns first, ih more]
        rfl

theorem sameLines_assemble (style : CiteStyle) (items notes : List String) :
    SameLines (Citation.assemble style items notes)
      (Citation.assemble style items (notes.map Text.withReturns)) := by
  have split : Citation.splitNotes (notes.map Text.withReturns) =
      (Text.withReturns (Citation.splitNotes notes).1,
        Text.withReturns (Citation.splitNotes notes).2) := by
    match notes with
    | [] | [_] | _ :: _ :: _ => rfl
  have empty (note : String) : (Text.withReturns note).isEmpty = note.isEmpty := by
    rw [Bool.eq_iff_iff, String.isEmpty_iff, String.isEmpty_iff, ← String.toList_eq_nil_iff,
      Text.toList_withReturns, Text.returned_eq_nil, String.toList_eq_nil_iff]
  have front (note : String) : SameLines (if note.isEmpty then "" else note ++ " ")
      (if note.isEmpty then "" else Text.withReturns note ++ " ") := by
    split
    · exact .refl _
    · exact (SameLines.withReturns note).append (.refl _)
  have back (note : String) : SameLines (if note.isEmpty then "" else ", " ++ note)
      (if note.isEmpty then "" else ", " ++ Text.withReturns note) := by
    split
    · exact .refl _
    · exact (SameLines.refl _).append (.withReturns note)
  unfold Citation.assemble
  simp only [split, empty]
  have text := ((front (Citation.splitNotes notes).1).append (.refl ("; ".intercalate items))).append
    (back (Citation.splitNotes notes).2)
  cases style with
  | parenthetical => exact ((SameLines.refl _).append text).append (.refl _)
  | textual => exact text
  | bare => exact text

end Citations

theorem follows_citation (html : ctx.target = .html) (style : CiteStyle)
    (line : ∀ arg ∈ node.required, ∀ key ∈ (Text.splitOn ',' arg.text).map Text.trim,
      LineFree key.toList) :
    Follows place Unrelated (citation ctx node style) (citation ctx node.withReturns style) := by
  unfold citation
  rw [html]
  refine .bind follows_onlyArg ?_
  rintro keys _ ⟨only, rfl⟩
  dsimp only
  rw [Arg.text_withReturns, entries_withReturns (line keys (only ▸ List.mem_singleton_self keys))]
  refine .bind (p := Eq) (.rendering fun entries found => ⟨entries, found, rfl⟩) ?_
  rintro entries _ rfl
  refine .bind (p := fun notes notes' => notes' = notes.map Text.withReturns)
    (.rendering fun notes read => ⟨_, ?_, rfl⟩) ?_
  · rw [Node.optional_withReturns]
    exact notes_withReturns read
  · rintro notes _ rfl
    exact .andThen .openParagraph (.write (sameLines_assemble style _ notes))

end Handlers

end Walk
end Quire
