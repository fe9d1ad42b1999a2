import Mathlib.Data.List.Chain
import Quire.Asset.Picture
import Quire.Proofs.Walk.Flow

/-! The tags of paragraphs. A walk opens a paragraph only where none is open and closes only the one
that is, so the tags that it writes alternate; running text and tables write none. Main statement:
`tags_alternate_nodes`, on the history of these tags. -/
namespace Quire.Walk

/-- Each opening is closed before the next one, and no closing is without its opening. -/
structure Alternates (tags : List ParagraphTag) : Prop where
  first : tags.head? ≠ some .closing
  turns : tags.IsChain (· ≠ ·)

structure Paired (s : State) : Prop extends Alternates s.paragraphTags where
  last : s.paragraphTags.getLast? = some .opening ↔ s.inParagraph = true
  counts : s.paragraphTags.count .opening =
    s.paragraphTags.count .closing + s.inParagraph.toNat

namespace Alternates

variable {tags : List ParagraphTag}

theorem nil : Alternates [] where
  first := nofun
  turns := .nil

theorem concat {tag : ParagraphTag} (alternates : Alternates tags)
    (other : tags.getLast? ≠ some tag) (begun : tags = [] → tag = .opening) :
    Alternates (tags ++ [tag]) where
  first := by
    cases tags with
    | nil =>
      rw [begun rfl]
      nofun
    | cons => exact alternates.first
  turns := by
    refine alternates.turns.append (.singleton tag) fun before last after single => ?_
    obtain rfl : tag = after := by simpa using single
    rintro rfl
    exact other last

end Alternates

namespace Paired

variable {s t : State}

/-- What touches neither a paragraph nor its tags. -/
theorem of_eq (paired : Paired s) (tags : t.paragraphTags = s.paragraphTags)
    (open_ : t.inParagraph = s.inParagraph) : Paired t where
  first := tags ▸ paired.first
  turns := tags ▸ paired.turns
  last := by rw [tags, open_, paired.last]
  counts := by rw [tags, open_, paired.counts]

theorem start (ctx : Context) (disk : Disk) : Paired (.start ctx disk) :=
  { Alternates.nil with last := iff_of_false nofun nofun, counts := rfl }

theorem layTable (paired : Paired s) (act : Table.Layout → String × Table.Layout) :
    Paired (s.layTable act) := by
  unfold State.layTable
  split
  · exact paired
  · exact paired.of_eq rfl rfl

theorem finishTable (paired : Paired s) (outer : Option Table.Layout) :
    Paired (s.finishTable outer) := by
  unfold State.finishTable
  split <;> exact paired.of_eq rfl rfl

theorem openParagraph (paired : Paired s) (flavor : Flavor) : Paired (s.openParagraph flavor) := by
  unfold State.openParagraph
  split
  · exact paired.layTable _
  split
  next opens =>
    have closed : s.inParagraph = false := by
      simp only [Bool.and_eq_true, Bool.not_eq_true'] at opens
      exact opens.1.1
    have unopened : s.paragraphTags.getLast? ≠ some .opening := fun last => by
      rw [paired.last, closed] at last
      cases last
    refine { paired.concat unopened fun _ => rfl with last := ?_, counts := ?_ }
    · simp only [List.getLast?_concat]
    · have counts := paired.counts
      rw [closed] at counts
      simp [counts]
  · exact paired

theorem closeParagraph (paired : Paired s) (flavor : Flavor) :
    Paired (s.closeParagraph flavor) := by
  unfold State.closeParagraph
  split
  next open_ =>
    have last := paired.last.mpr open_
    have other : s.paragraphTags.getLast? ≠ some .closing := by
      rw [last]
      nofun
    have begun (none_ : s.paragraphTags = []) : ParagraphTag.closing = .opening := by
      rw [none_] at last
      cases last
    refine { paired.concat other begun with last := ?_, counts := ?_ }
    · simp
    · have counts := paired.counts
      rw [open_] at counts
      simp [counts]
  · exact paired

end Paired

theorem Course.paired {ctx : Context} {s t : State} (course : Course ctx s t) (paired : Paired s) :
    Paired t := by
  induction course with
  | refl => exact paired
  | trans _ _ first second => exact second (first paired)
  | openParagraph s => exact paired.openParagraph ctx.flavor
  | closeParagraph s => exact paired.closeParagraph ctx.flavor
  | lay s op => exact paired.layTable _
  | write | record | count | draw | note | mark | files => exact paired.of_eq rfl rfl
  | deeper _ inner | inlined _ inner | listed _ _ inner | floated _ _ _ inner =>
    exact (inner (paired.of_eq rfl rfl)).of_eq rfl rfl
  | blocked _ inner =>
    have inside := inner ((paired.closeParagraph ctx.flavor).of_eq rfl rfl)
    exact (inside.closeParagraph ctx.flavor).of_eq rfl rfl
  | tabled columns _ inner => exact (inner (paired.of_eq rfl rfl)).finishTable _
  | merged | dropped => exact paired.of_eq rfl rfl

/-! The history in the text. The text holds the tags of HTML in the order of the history. -/

/-- The text holds these parts in this order, with any text around them. -/
inductive Holds : List String → String → Prop
  | nil (text : String) : Holds [] text
  | cons (before part : String) {parts : List String} {rest : String} (more : Holds parts rest) :
    Holds (part :: parts) (before ++ part ++ rest)

/-- Quarto parts paragraphs by white space, of which a trim may take some. -/
def ParagraphTag.mark : Target → ParagraphTag → String
  | .html, .opening => "<p>"
  | .html, .closing => "</p>"
  | .quarto, _ => ""

namespace Holds

variable {parts : List String} {text : String}

theorem of_empty (empty : ∀ part ∈ parts, part = "") (text : String) : Holds parts text := by
  induction parts with
  | nil => exact .nil text
  | cons part parts ih =>
    obtain ⟨rfl, others⟩ := List.forall_mem_cons.mp empty
    simpa using cons "" "" (ih others)

theorem append (holds : Holds parts text) (more : String) : Holds parts (text ++ more) := by
  induction holds with
  | nil text => exact .nil (text ++ more)
  | cons before part _ ih =>
    rw [String.append_assoc]
    exact .cons before part ih

theorem concat (holds : Holds parts text) (before part behind : String) :
    Holds (parts ++ [part]) (text ++ (before ++ part ++ behind)) := by
  induction holds with
  | nil text =>
    rw [← String.append_assoc, ← String.append_assoc]
    exact .cons (text ++ before) part (.nil behind)
  | cons front first _ ih =>
    rw [String.append_assoc]
    exact .cons front first ih

theorem trimEnd {tags : List ParagraphTag} (holds : Holds (tags.map (·.mark .html)) text) :
    Holds (tags.map (·.mark .html)) (Text.trimEnd text) := by
  induction tags generalizing text with
  | nil => exact .nil _
  | cons tag tags ih =>
    rw [List.map_cons] at holds ⊢
    cases holds with
    | @cons before _ _ rest more =>
      obtain ⟨front, solid⟩ : ∃ front, (tag.mark .html).toList = front ++ ['>'] := by
        cases tag
        · exact ⟨['<', 'p'], rfl⟩
        · exact ⟨['<', '/', 'p'], rfl⟩
      have stops : Text.trimEnd (before ++ tag.mark .html ++ rest) =
          before ++ tag.mark .html ++ Text.trimEnd rest := by
        have blank : Text.isBlank '>' = false := by decide
        rw [← String.toList_inj]
        simp only [Text.toList_trimEnd, String.toList_append, solid, List.append_assoc,
          List.singleton_append]
        rw [← List.append_assoc, Text.dropEndWhile_append_stop blank, List.append_assoc]
      rw [stops]
      exact .cons before (tag.mark .html) (ih more)

end Holds

def State.HoldsTags (s : State) : Prop := Holds (s.paragraphTags.map (·.mark .html)) s.out

namespace State.HoldsTags

variable {s : State}

theorem layTable (holds : s.HoldsTags) (act : Table.Layout → String × Table.Layout) :
    (s.layTable act).HoldsTags := by
  unfold State.layTable
  split
  · exact holds
  · exact holds.append _

theorem openParagraph (holds : s.HoldsTags) : (s.openParagraph Html.flavor).HoldsTags := by
  unfold State.openParagraph
  split
  · exact holds.layTable _
  split
  · rw [State.HoldsTags, List.map_append]
    exact holds.concat "\n" "<p>" ""
  · exact holds

theorem closeParagraph (holds : s.HoldsTags) : (s.closeParagraph Html.flavor).HoldsTags := by
  unfold State.closeParagraph
  split
  · rw [State.HoldsTags, List.map_append]
    exact holds.trimEnd.concat "" "</p>" "\n"
  · exact holds

theorem finishTable (holds : s.HoldsTags) (outer : Option Table.Layout) :
    (s.finishTable outer).HoldsTags := by
  unfold State.finishTable
  split
  · exact holds.append _
  · exact holds

end State.HoldsTags

theorem Course.holdsTags {ctx : Context} {s t : State} (course : Course ctx s t)
    (html : ctx.flavor = Html.flavor) (holds : s.HoldsTags) : t.HoldsTags := by
  induction course with
  | refl => exact holds
  | trans _ _ first second => exact second (first holds)
  | write | mark => exact holds.append _
  | openParagraph s => exact html ▸ holds.openParagraph
  | closeParagraph s => exact html ▸ holds.closeParagraph
  | lay s op => exact holds.layTable _
  | record | count | draw | note | files | merged | dropped => exact holds
  | deeper _ inner | inlined _ inner | listed _ _ inner => exact inner holds
  | floated _ _ _ inner => exact (inner (holds.append _)).append _
  | blocked _ inner =>
    rw [html] at inner ⊢
    exact (inner holds.closeParagraph).closeParagraph
  | tabled columns _ inner => exact (inner (holds.append _)).finishTable _

theorem holds_nodes (ctx : Context) (disk : Disk) (queue : List Node) :
    let s := (nodes ctx queue (.start ctx disk)).2
    let ended := (s.closeParagraph ctx.flavor).finishTable none
    Holds (ended.paragraphTags.map (·.mark ctx.target)) ended.out := by
  intro s ended
  have course : Course ctx (.start ctx disk) s := course_nodes ctx queue _
  have start : (State.start ctx disk).HoldsTags := .nil ""
  obtain ⟨labels, bibliography, verbs, snippetDir, assets, target, chapter⟩ := ctx
  cases target with
  | html => exact (course.holdsTags rfl start).closeParagraph.finishTable none
  | quarto =>
    refine .of_empty (fun part member => ?_) _
    obtain ⟨tag, -, rfl⟩ := List.mem_map.mp member
    rfl

section Flows

variable {ctx : Context} {s t : State}

theorem paragraphTags_layTable (act : Table.Layout → String × Table.Layout) (s : State) :
    (s.layTable act).paragraphTags = s.paragraphTags := by
  unfold State.layTable
  split <;> rfl

theorem paragraphTags_finishTable (outer : Option Table.Layout) (s : State) :
    (s.finishTable outer).paragraphTags = s.paragraphTags := by
  unfold State.finishTable
  split <;> rfl

/-- Where no paragraph can open no tag is written, whatever blocks there are. -/
theorem Course.paragraphTags_eq (course : Course ctx s t) (flows : s.Flows) :
    t.paragraphTags = s.paragraphTags := by
  induction course with
  | trans first _ ih ih' =>
    have between := flows.of_frames first.frames (first.grows flows).unopened
    exact (ih' between).trans (ih flows)
  | openParagraph s =>
    rw [flows.openParagraph_eq]
    exact paragraphTags_layTable _ s
  | closeParagraph s => rw [flows.closeParagraph_eq]
  | lay s op => exact paragraphTags_layTable _ s
  | refl | write | record | count | draw | note | mark | files | merged | dropped => rfl
  | deeper _ ih | listed _ _ ih | floated _ _ _ ih => exact ih { flows with }
  | inlined _ ih => exact ih ⟨flows.unopened, .inl rfl⟩
  | @blocked s t inner ih =>
    rw [flows.closeParagraph_eq] at ih inner
    have entered : State.Flows { s with blockDepth := s.depth + 1 } := { flows with }
    have flows' := entered.of_frames inner.frames (inner.grows entered).unopened
    rw [flows'.closeParagraph_eq]
    exact ih entered
  | @tabled s t columns inner ih =>
    have entered : (s.startTable columns).Flows := ⟨flows.unopened, .inr rfl⟩
    exact (paragraphTags_finishTable s.table t).trans (ih entered)

theorem flows_child (ctx : Context) (s : State) : (s.child ctx).Flows := ⟨rfl, .inl rfl⟩

end Flows

/-- The tags of paragraphs that a walk writes alternate, also when it fails. A body that is finished
has as many closings as openings and holds the tags of HTML in their order, and a walk whose text is
wanted writes neither. -/
theorem tags_alternate_nodes (ctx : Context) (disk : Disk) (queue : List Node) (outer : State) :
    let s := (nodes ctx queue (.start ctx disk)).2
    let ended := (s.closeParagraph ctx.flavor).finishTable none
    Alternates s.paragraphTags ∧
      (s.finish ctx).body = ended.out ++
        (if ended.footnotes.isEmpty then "" else ctx.flavor.footnotes ended.footnotes) ∧
      Alternates ended.paragraphTags ∧
      ended.paragraphTags.count .opening = ended.paragraphTags.count .closing ∧
      (nodes ctx queue (outer.child ctx)).2.paragraphTags = [] ∧
      Holds (ended.paragraphTags.map (·.mark ctx.target)) ended.out := by
  intro s ended
  have paired : Paired s := (course_nodes ctx queue _).paired (.start ctx disk)
  have closed := paired.closeParagraph ctx.flavor
  have tags : ended.paragraphTags = (s.closeParagraph ctx.flavor).paragraphTags :=
    paragraphTags_finishTable none _
  refine ⟨paired.toAlternates, rfl, (closed.finishTable none).toAlternates, ?_, ?_,
    holds_nodes ctx disk queue⟩
  · have counts := closed.counts
    rw [unopened_closeParagraph] at counts
    rw [tags]
    exact counts
  · exact (course_nodes ctx queue _).paragraphTags_eq (flows_child ctx outer)

/-- The block ends the paragraph in front of it and has one of its own. -/
example :
    let ctx : Context := ⟨.empty, .empty, [], "", ⟨"", "", 0, 0, .offline⟩, .html, 1⟩
    let chapter : List Node := [.text "a\n\nb", .environment "feature" [] [.text "c"], .text "d"]
    (nodes ctx chapter (.start ctx .empty)).2.paragraphTags =
      [.opening, .closing, .opening, .closing, .opening, .closing, .opening] := by
  decide +kernel

end Quire.Walk
