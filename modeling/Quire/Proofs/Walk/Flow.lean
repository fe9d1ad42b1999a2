import Quire.Proofs.Walk.Frame

/-! Walks where no paragraph can open: running text, and all of a table. Nothing that was written
before such a walk is lost. -/
namespace Quire.Walk

structure State.Flows (s : State) : Prop where
  unopened : s.inParagraph = false
  inside : s.inline = true ∨ s.table.isSome = true

/-- No paragraph was opened, and the text goes on with all of the text before. -/
structure Grows (s t : State) : Prop where
  unopened : t.inParagraph = false
  out_prefix : s.out.toList <+: t.out.toList

namespace State.Flows

variable {s t : State} {flavor : Flavor}

theorem closeParagraph_eq (flows : s.Flows) : s.closeParagraph flavor = s := by
  rw [State.closeParagraph, flows.unopened]
  rfl

theorem openParagraph_eq (flows : s.Flows) :
    s.openParagraph flavor = s.layTable (·.ensureCell) := by
  unfold State.openParagraph State.layTable
  rcases flows.inside with inline | inTable
  · cases s.table <;> simp [inline]
  · rw [if_pos inTable]

theorem of_frames (flows : s.Flows) (frames : Frames s t) (unopened : t.inParagraph = false) :
    t.Flows := by
  refine ⟨unopened, ?_⟩
  rw [frames.inline_eq, frames.inTable_eq]
  exact flows.inside

end State.Flows

namespace Grows

variable {s t u : State}

theorem refl (unopened : s.inParagraph = false) : Grows s s := ⟨unopened, List.prefix_rfl⟩

theorem trans (first : Grows s t) (second : Grows t u) : Grows s u :=
  ⟨second.unopened, first.out_prefix.trans second.out_prefix⟩

theorem write (unopened : s.inParagraph = false) (text : String) : Grows s (s.write text) :=
  ⟨unopened, Text.toList_prefix_append s.out text⟩

theorem layTable (unopened : s.inParagraph = false) (act : Table.Layout → String × Table.Layout) :
    Grows s (s.layTable act) := by
  unfold State.layTable
  split
  · exact refl unopened
  · exact { write unopened _ with }

theorem finishTable (unopened : s.inParagraph = false) (outer : Option Table.Layout) :
    Grows s (s.finishTable outer) := by
  unfold State.finishTable
  split
  · exact { write unopened _ with }
  · exact { refl unopened with }

end Grows

theorem Course.grows {ctx : Context} {s t : State} (course : Course ctx s t) (flows : s.Flows) :
    Grows s t := by
  induction course with
  | refl s => exact .refl flows.unopened
  | trans first _ ih ih' =>
    have grown := ih flows
    exact grown.trans (ih' (flows.of_frames first.frames grown.unopened))
  | write s text | mark s text => exact { Grows.write flows.unopened _ with }
  | openParagraph s =>
    rw [flows.openParagraph_eq]
    exact .layTable flows.unopened _
  | closeParagraph s =>
    rw [flows.closeParagraph_eq]
    exact .refl flows.unopened
  | lay s op => exact .layTable flows.unopened _
  | record s | count s | draw s | note s | files s => exact { Grows.refl flows.unopened with }
  | deeper _ ih | listed _ _ ih => exact { ih { flows with } with }
  | inlined _ ih => exact { ih ⟨flows.unopened, .inl rfl⟩ with }
  | @blocked s t inner ih =>
    rw [flows.closeParagraph_eq] at ih inner
    have entered : State.Flows { s with blockDepth := s.depth + 1 } := { flows with }
    have grown := ih entered
    rw [(entered.of_frames inner.frames grown.unopened).closeParagraph_eq]
    exact { grown with }
  | @floated s t class_ label inner ih =>
    have opened : Grows s { s.write (ctx.flavor.blockOpen class_) with floatLabel := label } :=
      { Grows.write flows.unopened _ with }
    have grown := ih { flows with }
    exact { opened.trans (grown.trans (.write grown.unopened ctx.flavor.blockClose)) with }
  | @tabled s t columns inner ih =>
    have opened : Grows s (s.startTable columns) := { Grows.write flows.unopened _ with }
    have grown := ih ⟨flows.unopened, .inr rfl⟩
    exact opened.trans (grown.trans (.finishTable grown.unopened s.table))
  | merged | dropped => exact { Grows.refl flows.unopened with }

theorem unopened_closeParagraph (flavor : Flavor) (s : State) :
    (s.closeParagraph flavor).inParagraph = false := by
  unfold State.closeParagraph
  split
  · rfl
  next closed => exact Bool.eq_false_iff.mpr closed

theorem grows_inlined {ctx : Context} {α : Type} {step : Walk α}
    (course : ∀ s, Course ctx s (step s).2) {s : State} (unopened : s.inParagraph = false) :
    Grows s (inlined step s).2 :=
  { (course { s with inline := true }).grows ⟨unopened, .inl rfl⟩ with }

end Quire.Walk
