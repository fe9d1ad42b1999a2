import Quire.Proofs.Numbering
import Quire.Proofs.Prose.Tags
import Quire.Proofs.Walk.Anchor

/-! Spots of a walk for HTML: which elements may be open where a node stands, and what each handler
leaves open. A paragraph is the only element that a handler closes without having opened it. -/
namespace Quire.Walk

open Html (Reads)

/-- Where nodes stand, by what may be open around them. -/
inductive Spot
  /-- Text forms paragraphs. -/
  | paragraphs
  /-- In braces in a paragraph, without markup between. -/
  | braces
  /-- In markup, where a paragraph may be open outside of it. -/
  | markup
  /-- Between the items of a list. No paragraph is open. -/
  | items
  /-- In running text without a paragraph around it. -/
  | line
deriving DecidableEq

namespace Spot

def breaks : Spot → Bool
  | paragraphs | braces => true
  | markup | items | line => false

def blocks (spot : Spot) : Bool := spot != markup

def inMarkup : Spot → Spot
  | paragraphs | braces | markup => markup
  | items | line => line

def inBraces : Spot → Spot
  | paragraphs | braces => braces
  | markup => markup
  | items | line => line

def inList : Spot → Spot
  | paragraphs | items => items
  | braces | markup | line => line

def inBlock : Spot → Spot
  | paragraphs | items => paragraphs
  | braces | markup | line => line

def elements (spot : Spot) (inParagraph : Bool) (base : List (List Char)) : List (List Char) :=
  if spot.breaks && inParagraph then "p".toList :: base else base

def Here (inline : Bool) (depth blockDepth : Nat) (inParagraph : Bool) : Spot → Prop
  | paragraphs => inline = false ∧ depth = blockDepth
  | braces | markup => inline = true
  | items => inline = false ∧ blockDepth < depth ∧ inParagraph = false
  | line => inline = true ∧ inParagraph = false

theorem elements_of_unbroken {spot : Spot} (unbroken : spot.breaks = false) (inParagraph : Bool)
    (base : List (List Char)) : spot.elements inParagraph base = base := by
  simp [elements, unbroken]

theorem elements_closed (spot : Spot) (base : List (List Char)) :
    spot.elements false base = base := by
  simp [elements]

theorem unbroken_inMarkup (spot : Spot) : spot.inMarkup.breaks = false := by
  cases spot <;> rfl

theorem breaks_inBraces (spot : Spot) : spot.inBraces.breaks = spot.breaks := by
  cases spot <;> rfl

theorem elements_inBraces (spot : Spot) (inParagraph : Bool) (base : List (List Char)) :
    spot.inBraces.elements inParagraph base = spot.elements inParagraph base := by
  rw [elements, elements, breaks_inBraces]

end Spot

/-- Outside of a table and without notes, the text so far leaves elements open. -/
structure HasOpen (elements : List (List Char)) (s : State) : Prop where
  noTable : s.table = none
  unnoted : s.footnotes = []
  reads : Reads [] s.out.toList elements

structure Stands (spot : Spot) (base : List (List Char)) (s : State) : Prop where
  opened : HasOpen (spot.elements s.inParagraph base) s
  here : spot.Here s.inline s.depth s.blockDepth s.inParagraph

/-- What is open outside of the spot is open behind a walk as before it, and where paragraphs do
not break, the paragraph outside is as it was. -/
structure Keeps (spot : Spot) (base : List (List Char)) (s u : State) : Prop where
  opened : HasOpen (spot.elements u.inParagraph base) u
  outside : spot.breaks = false → u.inParagraph = s.inParagraph

variable {ctx : Context} {spot : Spot} {base a b : List (List Char)} {s t u : State}

theorem flavor_html (html : ctx.target = .html) : ctx.flavor = Html.flavor := by
  rw [Context.flavor, html]
  rfl

theorem HasOpen.write {text : String} (opened : HasOpen a s) (reads : Reads a text.toList b) :
    HasOpen b (s.write text) where
  noTable := opened.noTable
  unnoted := opened.unnoted
  reads := by
    rw [State.write, String.toList_append]
    exact opened.reads.append reads

namespace Stands

theorem keep (stands : Stands spot base s) (frames : Frames s u) (keeps : Keeps spot base s u) :
    Stands spot base u := by
  refine ⟨keeps.opened, ?_⟩
  have here := stands.here
  have outside := keeps.outside
  cases spot with
  | paragraphs =>
    obtain ⟨inline, depth⟩ := here
    exact ⟨frames.inline_eq.trans inline,
      frames.depth_eq.trans (depth.trans frames.blockDepth_eq.symm)⟩
  | braces | markup => exact frames.inline_eq.trans here
  | items =>
    obtain ⟨inline, depth, unopened⟩ := here
    refine ⟨frames.inline_eq.trans inline, ?_, (outside rfl).trans unopened⟩
    rw [frames.depth_eq, frames.blockDepth_eq]
    exact depth
  | line =>
    obtain ⟨inline, unopened⟩ := here
    exact ⟨frames.inline_eq.trans inline, (outside rfl).trans unopened⟩

theorem refl (stands : Stands spot base s) : Keeps spot base s s := ⟨stands.opened, fun _ => rfl⟩

/-- Where a block may start, an open paragraph is the innermost element. -/
theorem closes (stands : Stands spot base s) (blocks : spot.blocks = true)
    (inParagraph : s.inParagraph = true) : spot.breaks = true := by
  have here := stands.here
  cases spot with
  | paragraphs | braces => rfl
  | markup => cases blocks
  | items => exact absurd (here.2.2.symm.trans inParagraph) (by decide)
  | line => exact absurd (here.2.symm.trans inParagraph) (by decide)

/-- What ends without an open paragraph keeps to a spot where a block may start. -/
theorem of_block (stands : Stands spot base s) (blocks : spot.blocks = true)
    (opened : HasOpen base u) (unopened : u.inParagraph = false) : Keeps spot base s u := by
  refine ⟨?_, fun unbroken => ?_⟩
  · rw [unopened, spot.elements_closed]
    exact opened
  · cases inParagraph : s.inParagraph with
    | false => exact unopened
    | true => exact absurd (unbroken.symm.trans (stands.closes blocks inParagraph)) (by decide)

theorem openParagraph (stands : Stands spot base s) :
    Stands spot base (s.openParagraph Html.flavor) ∧
      Keeps spot base s (s.openParagraph Html.flavor) := by
  have noTable : s.table.isSome = false := by rw [stands.opened.noTable]; rfl
  unfold State.openParagraph
  rw [if_neg (by simp [noTable])]
  split
  next opens =>
    simp only [Bool.and_eq_true, Bool.not_eq_true', beq_iff_eq] at opens
    obtain ⟨⟨closed, inline⟩, depth⟩ := opens
    have here := stands.here
    cases spot with
    | paragraphs =>
      have outer : HasOpen base s := by
        simpa [Spot.elements, closed] using stands.opened
      have opened := outer.write (Html.reads_paragraphOpen base)
      exact ⟨⟨{ opened with }, here⟩, { opened with }, nofun⟩
    | braces | markup => exact absurd (here.symm.trans inline) (by decide)
    | items => exact absurd here.2.1 (by omega)
    | line => exact absurd (here.1.symm.trans inline) (by decide)
  next => exact ⟨stands, stands.refl⟩

end Stands

/-- Closing a paragraph leaves what is open around it. -/
theorem HasOpen.closeParagraph (opened : HasOpen (spot.elements s.inParagraph base) s)
    (closes : s.inParagraph = true → spot.breaks = true) :
    HasOpen base (s.closeParagraph Html.flavor) := by
  unfold State.closeParagraph
  split
  next inParagraph =>
    have reads : Reads [] s.out.toList ("p".toList :: base) := by
      simpa [Spot.elements, inParagraph, closes inParagraph] using opened.reads
    refine ⟨opened.noTable, opened.unnoted, ?_⟩
    change Reads [] (Text.trimEnd s.out ++ Html.flavor.paragraphClose).toList base
    rw [String.toList_append, Text.toList_trimEnd]
    exact reads.trimEnd.append (Html.reads_paragraphClose base)
  next closed =>
    rw [Bool.eq_false_iff.mpr closed, spot.elements_closed] at opened
    exact opened

/-! Running text. -/

theorem mathless_behind_run {p : Char → Bool} {cs : List Char}
    (plain : ∀ c, p c = true → c ∉ Prose.activeChars) (held : Prose.mathless .text cs = true) :
    Prose.mathless .text (cs.drop (cs.takeWhile p).length) = true := by
  rw [← List.take_append_drop (cs.takeWhile p).length cs,
    ← List.prefix_iff_eq_take.mp (List.takeWhile_prefix p), Prose.mathless_append] at held
  · exact held
  · exact fun c member => plain c (List.mem_takeWhile_imp member)

/-- What a paragraph break takes is white space. -/
theorem mathless_behind_break {cs : List Char} {used : Nat}
    (held : Prose.mathless .text cs = true) (breaks : breakLength? cs = some used) :
    Prose.mathless .text (cs.drop used) = true := by
  have blank (c : Char) (blank : Text.isBlank c = true) : c ∉ Prose.activeChars := by
    intro active
    have solid : Prose.activeChars.all (!Text.isBlank ·) = true := by decide
    simpa [blank] using List.all_eq_true.mp solid c active
  have space (c : Char) (space : (c == ' ' || c == '\t') = true) : c ∉ Prose.activeChars := by
    refine blank c ?_
    rcases Bool.or_eq_true_iff.mp space with same | same <;> rw [beq_iff_eq.mp same] <;> rfl
  unfold breakLength? at breaks
  dsimp only at breaks
  split at breaks
  next rest eq =>
    cases breaks
    have front := mathless_behind_run space held
    rw [eq, Prose.mathless_cons (by decide)] at front
    rw [Nat.add_assoc, ← List.drop_drop, eq, Nat.add_comm, List.drop_succ_cons]
    exact mathless_behind_run blank front
  next => cases breaks

theorem mathless_paragraphs {cs : List Char} {at_ : Prose.Reading}
    (held : Prose.mathless at_ cs = true) :
    Prose.mathless at_ (paragraphs cs).1 = true ∧
      ∀ part ∈ (paragraphs cs).2, Prose.mathless .text part = true := by
  fun_induction paragraphs cs generalizing at_ with
  | case1 => exact ⟨held, nofun⟩
  | case2 c cs used breaks first more eq ih =>
    split at breaks
    next feed =>
      subst feed
      have parts : at_ ≠ .escape ∧ Prose.mathless .text cs = true := by
        cases at_ with
        | text | comment =>
          exact ⟨by decide, by simpa [Prose.mathless, Prose.Reading.next] using held⟩
        | escape => cases held
      have behind := ih (mathless_behind_break parts.2 breaks)
      rw [eq] at behind
      refine ⟨by simpa [Prose.mathless] using parts.1, ?_⟩
      rintro part (_ | ⟨_, member⟩)
      · exact behind.1
      · exact behind.2 part member
    next => cases breaks
  | case3 c cs none_ first more eq ih =>
    obtain ⟨next, read, held⟩ := (Option.any_eq_true _ _).mp held
    have behind := ih held
    rw [eq] at behind
    refine ⟨?_, behind.2⟩
    change (at_.next c).any (fun next => Prose.mathless next first) = true
    rw [read]
    exact behind.1

theorem stands_writePiece {text : String} (stands : Stands .paragraphs base s)
    (reads : Reads [] text.toList []) :
    Stands .paragraphs base (writePiece Html.flavor text s) := by
  have write {s : State} {text : String} (stands : Stands .paragraphs base s)
      (reads : Reads [] text.toList []) : Stands .paragraphs base (s.write text) :=
    ⟨stands.opened.write (reads.anywhere _), stands.here⟩
  unfold writePiece
  split
  · split
    · exact write stands reads
    · exact stands
  · split
    · exact write stands reads
    · refine write stands.openParagraph.1 ?_
      rw [Text.trimStart, Text.dropFront, String.toList_ofList]
      exact reads.trimStart

theorem stands_piece {raw : List Char} (html : ctx.target = .html)
    (held : Prose.mathless .text raw = true) (stands : Stands .paragraphs base s)
    (ran : piece ctx raw s = (.ok (), u)) : Stands .paragraphs base u := by
  obtain ⟨text, s₁, got, ran₁⟩ := bind_eq_ok ran
  obtain ⟨normalized, rfl⟩ := rendering_eq_ok got
  rw [html] at normalized
  cases ran₁
  rw [flavor_html html]
  refine stands_writePiece stands (Prose.reads_normalize ?_ normalized)
  rwa [String.toList_ofList]

theorem keeps_paragraphText {raw : String} (html : ctx.target = .html)
    (held : Prose.mathless .text raw.toList = true) (stands : Stands .paragraphs base s)
    (ran : paragraphText ctx raw s = (.ok (), u)) : Keeps .paragraphs base s u := by
  obtain ⟨first, more⟩ := mathless_paragraphs held
  obtain ⟨⟨⟩, s₁, wrote, ran₁⟩ := bind_eq_ok ran
  have stands₁ := stands_piece html first stands wrote
  have all (parts : List (List Char))
      (each : ∀ part ∈ parts, Prose.mathless .text part = true) : ∀ {s u : State},
      Stands .paragraphs base s →
      (parts.forM fun next => do
        modify (·.closeParagraph ctx.flavor)
        piece ctx next) s = (.ok (), u) → Stands .paragraphs base u := by
    induction parts with
    | nil =>
      intro s u stands ran
      cases ran
      exact stands
    | cons part parts ih =>
      intro s u stands ran
      obtain ⟨⟨⟩, s₁, wrote, ran₁⟩ := bind_eq_ok ran
      obtain ⟨⟨⟩, s₂, closed, wrote⟩ := bind_eq_ok wrote
      cases closed
      have outer : Stands .paragraphs base (s.closeParagraph ctx.flavor) := by
        rw [flavor_html html]
        have closed := stands.opened.closeParagraph fun _ => rfl
        have frames := Frames.closeParagraph Html.flavor s
        exact stands.keep frames
          (stands.of_block rfl closed (unopened_closeParagraph Html.flavor s))
      exact ih (fun other member => each other (List.mem_cons_of_mem part member))
        (stands_piece html (each part List.mem_cons_self) outer wrote) ran₁
  exact ⟨(all _ more stands₁ ran₁).opened, nofun⟩

theorem keeps_plainText {raw : String} (html : ctx.target = .html)
    (held : Prose.mathless .text raw.toList = true) (stands : Stands spot base s)
    (ran : plainText ctx raw s = (.ok (), u)) : Keeps spot base s u := by
  obtain ⟨text, s₁, got, ran₁⟩ := bind_eq_ok ran
  obtain ⟨normalized, rfl⟩ := rendering_eq_ok got
  rw [html] at normalized
  cases ran₁
  have reads := Prose.reads_normalize held normalized
  dsimp only
  split
  · exact ⟨stands.opened.write (reads.anywhere _), fun _ => rfl⟩
  · exact stands.refl

theorem keeps_text {raw : String} (html : ctx.target = .html)
    (held : Prose.mathless .text raw.toList = true) (stands : Stands spot base s)
    (ran : text ctx raw s = (.ok (), u)) : Keeps spot base s u := by
  have noTable : s.table.isSome = false := by rw [stands.opened.noTable]; rfl
  obtain ⟨_, _, ⟨⟩, ran⟩ := bind_eq_ok ran
  rw [if_neg (by simp [noTable])] at ran
  split at ran
  next => exact keeps_plainText html held stands ran
  next forms =>
    simp only [Bool.or_eq_true, bne_iff_ne, not_or, Bool.not_eq_true, not_not] at forms
    obtain ⟨inline, depth⟩ := forms
    have here := stands.here
    cases spot with
    | paragraphs => exact keeps_paragraphText html held stands ran
    | braces | markup => exact absurd (here.symm.trans inline) (by decide)
    | items => exact absurd here.2.1 (by omega)
    | line => exact absurd (here.1.symm.trans inline) (by decide)

/-! Nodes inside of a node. -/

/-- Neighbours that keep to their spot wherever the walk of them succeeds. -/
def Tidy (ctx : Context) (spot : Spot) (queue : List Node) : Prop :=
  ∀ base s u, Stands spot base s → neighbours ctx queue s = (.ok (), u) → Keeps spot base s u

theorem Tidy.nodes {queue : List Node} (tidy : Tidy ctx spot queue)
    (opened : HasOpen (spot.elements s.inParagraph a) s)
    (here : spot.Here s.inline (s.depth + 1) s.blockDepth s.inParagraph)
    (ran : nodes ctx queue s = (.ok (), u)) : Keeps spot a s u := by
  unfold Walk.nodes deeper at ran
  obtain ⟨t, walked, rfl⟩ := within_eq_ok ran
  have keeps := tidy a { s with depth := s.depth + 1 } t ⟨{ opened with }, here⟩ walked
  exact ⟨{ keeps.opened with }, keeps.outside⟩

theorem Tidy.inlined {queue : List Node} (tidy : Tidy ctx spot queue)
    (opened : HasOpen (spot.elements s.inParagraph a) s)
    (here : spot.Here true (s.depth + 1) s.blockDepth s.inParagraph)
    (ran : inlined (Walk.nodes ctx queue) s = (.ok (), u)) : Keeps spot a s u := by
  obtain ⟨t, walked, rfl⟩ := within_eq_ok ran
  have keeps := Tidy.nodes (s := { s with inline := true }) tidy { opened with } here walked
  exact ⟨{ keeps.opened with }, keeps.outside⟩

/-- In a block text may form paragraphs anew; the last one ends with the block. -/
theorem Tidy.blocked {queue : List Node} (tidy : Tidy ctx spot queue) (opened : HasOpen a s)
    (unopened : s.inParagraph = false)
    (here : spot.Here s.inline (s.depth + 1) (s.depth + 1) s.inParagraph)
    (ran : Walk.blocked Html.flavor (Walk.nodes ctx queue) s = (.ok (), u)) :
    HasOpen a u ∧ u.inParagraph = false := by
  obtain ⟨t, walked, rfl⟩ := within_eq_ok ran
  have closed : s.closeParagraph Html.flavor = s := by
    rw [State.closeParagraph, unopened]
    rfl
  rw [closed] at walked
  have entered : HasOpen (spot.elements s.inParagraph a) s := by
    rwa [unopened, spot.elements_closed]
  obtain ⟨inner, outside⟩ := Tidy.nodes (a := a) (s := { s with blockDepth := s.depth + 1 }) tidy
    { entered with } here walked
  have closes (inParagraph : t.inParagraph = true) : spot.breaks = true := by
    cases breaks : spot.breaks with
    | true => rfl
    | false => exact absurd ((outside breaks).symm.trans inParagraph) (by simp [unopened])
  exact ⟨{ inner.closeParagraph closes with }, unopened_closeParagraph Html.flavor t⟩

/-- Running text in an element that is open above those of the spot. -/
theorem Tidy.inMarkup {queue : List Node} (tidy : Tidy ctx spot.inMarkup queue)
    (stands : Stands spot base s) (opened : HasOpen a t) (paragraph : t.inParagraph = s.inParagraph)
    (ran : Walk.inlined (Walk.nodes ctx queue) t = (.ok (), u)) :
    HasOpen a u ∧ u.inParagraph = s.inParagraph := by
  have unbroken := spot.unbroken_inMarkup
  have here : spot.inMarkup.Here true (t.depth + 1) t.blockDepth t.inParagraph := by
    have here := stands.here
    cases spot with
    | paragraphs | braces | markup => rfl
    | items => exact ⟨rfl, paragraph.trans here.2.2⟩
    | line => exact ⟨rfl, paragraph.trans here.2⟩
  have keeps := tidy.inlined (a := a)
    (by rwa [Spot.elements_of_unbroken unbroken]) here ran
  refine ⟨?_, (keeps.outside unbroken).trans paragraph⟩
  have opened := keeps.opened
  rwa [Spot.elements_of_unbroken unbroken] at opened

section Handlers

variable {node : Node} {rest : List Node}

theorem keeps_markup {m : Markup} (html : ctx.target = .html)
    (tidy : Tidy ctx spot.inMarkup (node.requiredNodes 0)) (stands : Stands spot base s)
    (ran : markup ctx (below ctx node rest) m s = (.ok (), u)) : Keeps spot base s u := by
  obtain ⟨⟨⟩, s₁, ⟨⟩, ran₁⟩ := bind_eq_ok ran
  obtain ⟨⟨⟩, s₂, ⟨⟩, ran₂⟩ := bind_eq_ok ran₁
  obtain ⟨⟨⟩, s₃, walked, ⟨⟩⟩ := bind_eq_ok ran₂
  rw [flavor_html html] at walked ⊢
  obtain ⟨stands₁, keeps₁⟩ := stands.openParagraph
  have opened := stands₁.opened.write (Html.reads_markupOpen _ m)
  obtain ⟨opened₃, paragraph⟩ := tidy.inMarkup stands₁ opened rfl walked
  refine ⟨?_, fun unbroken => paragraph.trans (keeps₁.outside unbroken)⟩
  have closed := opened₃.write (Html.reads_markupClose _ m)
  rwa [← paragraph] at closed

theorem keeps_math {display : Bool} {content : String} (html : ctx.target = .html)
    (blocks : display = true → spot.blocks = true) (stands : Stands spot base s)
    (ran : math ctx display content s = (.ok (), u)) : Keeps spot base s u := by
  have noTable : s.table.isSome = false := by rw [stands.opened.noTable]; rfl
  obtain ⟨_, _, ⟨⟩, ran⟩ := bind_eq_ok ran
  rw [if_neg (by simp [noTable])] at ran
  split at ran
  next shown =>
    obtain ⟨⟨⟩, s₁, ⟨⟩, ⟨⟩⟩ := bind_eq_ok ran
    rw [flavor_html html]
    have closed := stands.opened.closeParagraph (stands.closes (blocks shown))
    exact stands.of_block (blocks shown) (closed.write (Html.reads_displayMath base content))
      (unopened_closeParagraph Html.flavor s)
  next =>
    obtain ⟨⟨⟩, s₁, ⟨⟩, ⟨⟩⟩ := bind_eq_ok ran
    rw [flavor_html html]
    obtain ⟨stands₁, keeps₁⟩ := stands.openParagraph
    exact ⟨stands₁.opened.write (Html.reads_inlineMath _ content), keeps₁.outside⟩

theorem keeps_group {children : List Node} (html : ctx.target = .html)
    (tidy : Tidy ctx spot.inBraces children) (stands : Stands spot base s)
    (ran : group ctx (.group children) rest (below ctx (.group children) rest) s = (.ok (), u)) :
    Keeps spot base s u := by
  have walk {s u : State} (stands : Stands spot base s)
      (ran : inlined (nodes ctx children) s = (.ok (), u)) : Keeps spot base s u := by
    have here : spot.inBraces.Here true (s.depth + 1) s.blockDepth s.inParagraph := by
      have here := stands.here
      cases spot with
      | paragraphs | braces | markup => rfl
      | items => exact ⟨rfl, here.2.2⟩
      | line => exact ⟨rfl, here.2⟩
    have keeps := tidy.inlined (by rw [spot.elements_inBraces]; exact stands.opened) here ran
    refine ⟨?_, spot.breaks_inBraces ▸ keeps.outside⟩
    rw [← spot.elements_inBraces]
    exact keeps.opened
  unfold group at ran
  dsimp only at ran
  split at ran
  · obtain ⟨⟨⟩, s₁, ⟨⟩, ran⟩ := bind_eq_ok ran
    rw [flavor_html html] at ran
    obtain ⟨stands₁, keeps₁⟩ := stands.openParagraph
    have keeps := walk stands₁ ran
    exact ⟨keeps.opened, fun unbroken =>
      (keeps.outside unbroken).trans (keeps₁.outside unbroken)⟩
  · exact walk stands ran

/-- A block closes the paragraph and stands in an element of its own. -/
theorem Stands.openBlock {text : String} (stands : Stands spot base s)
    (blocks : spot.blocks = true) (reads : Reads base text.toList a) :
    HasOpen a ((s.closeParagraph Html.flavor).write text) ∧
      ((s.closeParagraph Html.flavor).write text).inParagraph = false :=
  ⟨(stands.opened.closeParagraph (stands.closes blocks)).write reads,
    unopened_closeParagraph Html.flavor s⟩

theorem keeps_list (html : ctx.target = .html) (blocks : spot.blocks = true)
    (tidy : Tidy ctx spot.inList node.children) (stands : Stands spot base s)
    (ran : list ctx (below ctx node rest) s = (.ok (), u)) : Keeps spot base s u := by
  obtain ⟨⟨⟩, s₁, ⟨⟩, ran₁⟩ := bind_eq_ok ran
  obtain ⟨⟨⟩, s₂, ⟨⟩, ran₂⟩ := bind_eq_ok ran₁
  obtain ⟨⟨⟩, s₃, listed, ⟨⟩⟩ := bind_eq_ok ran₂
  obtain ⟨t, walked, rfl⟩ := within_eq_ok listed
  rw [flavor_html html] at walked ⊢
  generalize (ListKind.ofEnvironment? node.name).getD .itemize = kind at walked ⊢
  obtain ⟨opened, unopened⟩ := stands.openBlock blocks (Html.reads_listOpen base kind)
  have unbroken : spot.inList.breaks = false := by cases spot <;> rfl
  have here : spot.inList.Here (s.closeParagraph Html.flavor).inline
      ((s.closeParagraph Html.flavor).depth + 1) (s.closeParagraph Html.flavor).blockDepth
      (s.closeParagraph Html.flavor).inParagraph := by
    have here := stands.here
    have frames := Frames.closeParagraph Html.flavor s
    rw [frames.inline_eq, frames.depth_eq, frames.blockDepth_eq,
      unopened_closeParagraph Html.flavor s]
    cases spot with
    | paragraphs => exact ⟨here.1, by rw [here.2]; exact Nat.lt_succ_self _, rfl⟩
    | items => exact ⟨here.1, Nat.lt_succ_of_lt here.2.1, rfl⟩
    | braces => exact ⟨here, rfl⟩
    | line => exact ⟨here.1, rfl⟩
    | markup => cases blocks
  obtain ⟨inner, outside⟩ := Tidy.nodes (a := (Html.listTag kind).toList :: base)
    (s := { (s.closeParagraph Html.flavor).write (Html.listOpen kind) with
      lists := kind :: (s.closeParagraph Html.flavor).lists }) tidy
    (by rw [Spot.elements_of_unbroken unbroken]; exact { opened with }) here walked
  rw [Spot.elements_of_unbroken unbroken] at inner
  refine stands.of_block blocks ?_ ((outside unbroken).trans unopened)
  exact HasOpen.write (s := { t with lists := t.lists.tail }) { inner with }
    (Html.reads_listClose base kind)

/-- A title that reads on its own; the walk of it writes nothing here and leaves no notes. -/
def Titles (a : List (List Char)) (s : State) (step : Walk (Option String)) : Prop :=
  ∀ title u, step s = (.ok title, u) →
    HasOpen a u ∧ u.inParagraph = s.inParagraph ∧ ∀ text ∈ title, Reads [] text.toList []

theorem titles_itemTitle
    (tidy : ∀ arg, node.optionalArg? = .ok (some arg) → Tidy ctx .line arg.nodes)
    (opened : HasOpen a s) : Titles a s (itemTitle? ctx (below ctx node rest)) := by
  unfold itemTitle?
  split
  next => nofun
  next =>
    rintro title u ⟨⟩
    exact ⟨opened, rfl, nofun⟩
  next arg found =>
    intro title u ran
    obtain ⟨text, s₁, walked, ⟨⟩⟩ := bind_eq_ok ran
    unfold asText at walked
    split at walked
    next inner answered =>
      cases walked
      have start : HasOpen [] (s.child ctx) := ⟨rfl, rfl, rfl⟩
      have keeps := Tidy.nodes (a := []) (tidy arg found) start ⟨rfl, rfl⟩ answered
      refine ⟨⟨opened.noTable, ?_, opened.reads⟩, rfl, ?_⟩
      · simp [State.merge, opened.unnoted, keeps.opened.unnoted]
      · rintro _ ⟨⟩
        rw [Text.trim_eq, Text.toList_trimEnd, Text.trimStart, Text.dropFront, String.toList_ofList]
        exact keeps.opened.reads.trimStart.trimEnd
    next => cases walked

theorem keeps_item (html : ctx.target = .html)
    (title : ∀ arg, node.optionalArg? = .ok (some arg) → Tidy ctx .line arg.nodes)
    (tidy : Tidy ctx spot.inMarkup (trimFront node.children)) (stands : Stands spot base s)
    (ran : item ctx (below ctx node rest) s = (.ok (), u)) : Keeps spot base s u := by
  obtain ⟨_, _, ⟨⟩, ran₁⟩ := bind_eq_ok ran
  obtain ⟨shown, s₂, titled, ran₂⟩ := bind_eq_ok ran₁
  obtain ⟨⟨⟩, s₃, ⟨⟩, ran₃⟩ := bind_eq_ok ran₂
  obtain ⟨⟨⟩, s₄, walked, ⟨⟩⟩ := bind_eq_ok ran₃
  rw [flavor_html html] at walked ⊢
  generalize s.lists.head?.getD .itemize = kind at walked ⊢
  obtain ⟨opened, paragraph, reads⟩ := titles_itemTitle title stands.opened _ _ titled
  have inner := opened.write (Html.reads_itemOpen _ kind reads)
  obtain ⟨opened₄, paragraph₄⟩ := tidy.inMarkup stands inner paragraph walked
  refine ⟨?_, fun _ => paragraph₄⟩
  have closed := opened₄.write (Html.reads_itemClose _ kind)
  rwa [← paragraph₄] at closed

theorem keeps_feature (html : ctx.target = .html) (blocks : spot.blocks = true)
    (tidy : Tidy ctx spot.inBlock node.children) (stands : Stands spot base s)
    (ran : feature ctx (below ctx node rest) s = (.ok (), u)) : Keeps spot base s u := by
  obtain ⟨⟨⟩, s₁, ⟨⟩, ran₁⟩ := bind_eq_ok ran
  obtain ⟨⟨⟩, s₂, ⟨⟩, ran₂⟩ := bind_eq_ok ran₁
  obtain ⟨⟨⟩, s₃, walked, ⟨⟩⟩ := bind_eq_ok ran₂
  rw [flavor_html html] at walked ⊢
  obtain ⟨opened, unopened⟩ := stands.openBlock blocks (Html.reads_featureOpen base)
  have here : spot.inBlock.Here (s.closeParagraph Html.flavor).inline
      ((s.closeParagraph Html.flavor).depth + 1) ((s.closeParagraph Html.flavor).depth + 1)
      (s.closeParagraph Html.flavor).inParagraph := by
    have here := stands.here
    rw [(Frames.closeParagraph Html.flavor s).inline_eq, unopened_closeParagraph Html.flavor s]
    cases spot with
    | paragraphs | items => exact ⟨here.1, rfl⟩
    | braces => exact ⟨here, rfl⟩
    | line => exact ⟨here.1, rfl⟩
    | markup => cases blocks
  obtain ⟨inner, closed⟩ := tidy.blocked opened unopened here walked
  exact stands.of_block blocks (inner.write (Html.reads_blockClose base)) closed

theorem not_mem_sectionAnchor {number : String} (absent : '>' ∉ number.toList) :
    '>' ∉ (Reference.sectionAnchor number).toList := by
  have mapped : '>' ∉ number.toList.map fun c => if c = '.' then '_' else c := by
    intro member
    obtain ⟨c, inside, same⟩ := List.mem_map.mp member
    split at same
    · cases same
    · exact absent (same ▸ inside)
  simp [Reference.sectionAnchor, mapped]

theorem not_mem_titleAnchor (title : String) : '>' ∉ (titleAnchor title).toList := by
  have label (label : String) : '>' ∉ (Reference.labelId label).toList := by
    intro member
    rw [Reference.labelId, String.toList_ofList] at member
    obtain ⟨c, -, same⟩ := List.mem_map.mp member
    split at same
    next kept =>
      subst same
      exact absurd kept (by decide)
    next => cases same
  simp [titleAnchor, label]

theorem keeps_heading {level : Level} {starred : Bool} (html : ctx.target = .html)
    (blocks : spot.blocks = true) (unlabelled : labelBehind? rest = none)
    (tidy : Tidy ctx .line (node.requiredNodes 0)) (stands : Stands spot base s)
    (ran : heading ctx (below ctx node rest) level starred s = (.ok (), u)) :
    Keeps spot base s u := by
  have titled {anchor number : String} (anchored : '>' ∉ anchor.toList)
      (numbered : '<' ∉ number.toList) {t u : State}
      (opened : HasOpen base t) (unopened : t.inParagraph = false)
      (ran : (do
        write (ctx.flavor.headingOpen level anchor number)
        inlined (nodes ctx (node.requiredNodes 0))
        write (ctx.flavor.headingClose level anchor)) t = (.ok (), u)) :
      Keeps spot base s u := by
    obtain ⟨⟨⟩, t₁, ⟨⟩, ran₁⟩ := bind_eq_ok ran
    obtain ⟨⟨⟩, t₂, walked, ⟨⟩⟩ := bind_eq_ok ran₁
    rw [flavor_html html] at walked ⊢
    have front := opened.write (Html.reads_headingOpen base level anchored numbered)
    obtain ⟨inner, outside⟩ := tidy.inlined front ⟨rfl, unopened⟩ walked
    exact stands.of_block blocks (inner.write (Html.reads_headingClose base level))
      ((outside rfl).trans unopened)
  obtain ⟨arg, s₁, got, ran₁⟩ := bind_eq_ok ran
  obtain ⟨-, rfl⟩ := rendering_eq_ok got
  obtain ⟨⟨⟩, s₂, ⟨⟩, ran₂⟩ := bind_eq_ok ran₁
  have closed : HasOpen base (s₁.closeParagraph ctx.flavor) := by
    rw [flavor_html html]
    exact stands.opened.closeParagraph (stands.closes blocks)
  have unopened := unopened_closeParagraph ctx.flavor s₁
  beta_reduce at ran₂
  generalize s₁.closeParagraph ctx.flavor = t at closed unopened ran₂
  cases starred with
  | true =>
    obtain ⟨number, s₃, ⟨⟩, ran₃⟩ := bind_eq_ok ran₂
    exact titled (not_mem_titleAnchor arg.text) (by simp) closed unopened ran₃
  | false =>
    obtain ⟨number, s₃, counted, ran₃⟩ := bind_eq_ok ran₂
    have current : headingNumber ctx level rest t =
        (.ok ((t.counters.bump level).current level),
          { t with counters := t.counters.bump level }) := by
      simp [headingNumber, unlabelled]
    rw [current] at counted
    cases counted
    have numbered {c : Char} (digit : c.isDigit = false) (dot : c ≠ '.') :=
      Counters.not_mem_dotted digit dot ((t.counters.bump level).upTo level)
    exact titled (t := { t with counters := t.counters.bump level })
      (not_mem_sectionAnchor (numbered (by decide) (by decide)))
      (numbered (by decide) (by decide)) { closed with } unopened ran₃

end Handlers

end Quire.Walk
