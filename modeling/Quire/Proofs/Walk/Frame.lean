import Quire.Proofs.Text.Trim
import Quire.Proofs.Walk.Handlers

/-! What a walk leaves as it was. Whatever it swaps for a part of the way it puts back, also when
this part fails, and of the text in front of it no more is lost than white space at its end. -/
namespace Quire.Walk

/-- What is the same behind a walk as before it, or only grows. Of the text that was written, white
space at its end may go. -/
structure Frames (s t : State) : Prop where
  depth_eq : t.depth = s.depth
  blockDepth_eq : t.blockDepth = s.blockDepth
  inline_eq : t.inline = s.inline
  lists_eq : t.lists = s.lists
  floatLabel_eq : t.floatLabel = s.floatLabel
  footnoteBase_eq : t.footnoteBase = s.footnoteBase
  inTable_eq : t.table.isSome = s.table.isSome
  footnotes_prefix : s.footnotes <+: t.footnotes
  out_prefix : (Text.trimEnd s.out).toList <+: t.out.toList

namespace Frames

variable {s t u : State}

theorem refl (s : State) : Frames s s :=
  ⟨rfl, rfl, rfl, rfl, rfl, rfl, rfl, List.prefix_rfl, Text.toList_trimEnd_prefix s.out⟩

theorem trans (first : Frames s t) (second : Frames t u) : Frames s u where
  depth_eq := second.depth_eq.trans first.depth_eq
  blockDepth_eq := second.blockDepth_eq.trans first.blockDepth_eq
  inline_eq := second.inline_eq.trans first.inline_eq
  lists_eq := second.lists_eq.trans first.lists_eq
  floatLabel_eq := second.floatLabel_eq.trans first.floatLabel_eq
  footnoteBase_eq := second.footnoteBase_eq.trans first.footnoteBase_eq
  inTable_eq := second.inTable_eq.trans first.inTable_eq
  footnotes_prefix := first.footnotes_prefix.trans second.footnotes_prefix
  out_prefix := (Text.trimEnd_prefix_trimEnd first.out_prefix).trans second.out_prefix

theorem trimEnd_prefix_append (text more : String) :
    (Text.trimEnd text).toList <+: (text ++ more).toList :=
  (Text.toList_trimEnd_prefix text).trans (Text.toList_prefix_append text more)

theorem write (s : State) (text : String) : Frames s (s.write text) :=
  { refl s with out_prefix := trimEnd_prefix_append s.out text }

theorem layTable (s : State) (act : Table.Layout → String × Table.Layout) :
    Frames s (s.layTable act) := by
  unfold State.layTable
  split
  next => exact refl s
  next layout open_ =>
    exact { refl s with
      inTable_eq := by rw [open_]; rfl
      out_prefix := trimEnd_prefix_append s.out _ }

theorem openParagraph (flavor : Flavor) (s : State) : Frames s (s.openParagraph flavor) := by
  unfold State.openParagraph
  split
  · exact layTable s _
  split
  · exact { refl s with out_prefix := trimEnd_prefix_append s.out _ }
  · exact refl s

theorem closeParagraph (flavor : Flavor) (s : State) : Frames s (s.closeParagraph flavor) := by
  unfold State.closeParagraph
  split
  · have kept : (Text.trimEnd s.out).toList <+:
        (Text.trimEnd s.out ++ flavor.paragraphClose).toList :=
      Text.toList_prefix_append _ _
    exact { refl s with out_prefix := kept }
  · exact refl s

/-- The layout that was put aside comes back, whatever became of the one inside. -/
theorem finishTable (outer : Option Table.Layout) (t : State) :
    Frames { t with table := outer } (t.finishTable outer) := by
  unfold State.finishTable
  split
  · exact ⟨rfl, rfl, rfl, rfl, rfl, rfl, rfl, List.prefix_rfl, trimEnd_prefix_append t.out _⟩
  · exact ⟨rfl, rfl, rfl, rfl, rfl, rfl, rfl, List.prefix_rfl, Text.toList_trimEnd_prefix t.out⟩

end Frames

theorem Course.frames {ctx : Context} {s t : State} (course : Course ctx s t) : Frames s t := by
  induction course with
  | refl s => exact .refl s
  | trans _ _ first second => exact first.trans second
  | write s text => exact .write s text
  | openParagraph s => exact .openParagraph ctx.flavor s
  | closeParagraph s => exact .closeParagraph ctx.flavor s
  | lay s op => exact .layTable s _
  | record s | count s | draw s | files s => exact { Frames.refl s with }
  | note s body => exact { Frames.refl s with footnotes_prefix := List.prefix_append _ _ }
  | mark s body => exact { Frames.write s _ with }
  | deeper _ inner => exact { inner with depth_eq := by simp [inner.depth_eq] }
  | inlined _ inner => exact { inner with inline_eq := rfl }
  | @blocked s t _ inner =>
    have closed := Frames.closeParagraph ctx.flavor s
    have inside : Frames (s.closeParagraph ctx.flavor) { t with blockDepth := s.blockDepth } :=
      { inner with blockDepth_eq := closed.blockDepth_eq.symm }
    have behind : Frames { t with blockDepth := s.blockDepth }
        { t.closeParagraph ctx.flavor with blockDepth := s.blockDepth } :=
      { Frames.closeParagraph ctx.flavor t with blockDepth_eq := rfl }
    exact closed.trans (inside.trans behind)
  | listed kind _ inner => exact { inner with lists_eq := by simp [inner.lists_eq] }
  | @floated s t class_ label _ inner =>
    have inside :
        Frames (s.write (ctx.flavor.blockOpen class_)) { t with floatLabel := s.floatLabel } :=
      { inner with floatLabel_eq := rfl }
    exact (Frames.write s _).trans (inside.trans (Frames.write _ ctx.flavor.blockClose))
  | @tabled s t columns _ inner =>
    have inside : Frames (s.write (Table.Layout.start columns).1) { t with table := s.table } :=
      { inner with inTable_eq := rfl }
    exact (Frames.write s _).trans (inside.trans (Frames.finishTable s.table t))
  | @merged s => exact { Frames.refl s with footnotes_prefix := List.prefix_append _ _ }
  | @dropped s => exact { Frames.refl s with }

/-- Every walk leaves its frame as it was, and of an inner walk that failed nothing is left that
could be read. -/
theorem frames_nodes (ctx : Context) (queue : List Node) (s : State) :
    Frames s (nodes ctx queue s).2 ∧
      ∀ fault t, asText ctx (nodes ctx queue) s = (.error fault, t) →
        t.out = s.out ∧ t.footnotes = s.footnotes ∧ t.counters = s.counters ∧
          t.diagnostics = s.diagnostics := by
  refine ⟨(course_nodes ctx queue s).frames, fun fault t failed => ?_⟩
  unfold asText at failed
  split at failed
  · cases failed
  · obtain ⟨-, rfl⟩ := Prod.mk.inj failed
    exact ⟨rfl, rfl, rfl, rfl⟩

/-- The walk of a list fails inside a note of a table. The table, the list and the note were begun,
and text was written for them. -/
theorem frames_nodes_of_failed :
    let ctx : Context := ⟨.empty, .empty, [], "", ⟨"", "", 0, 0, .offline⟩, .html, 1⟩
    let bad : Node := .command "verbplaceholder" [.mk .required [.text "x"] "x"]
    let note : Node := .command "footnote" [.mk .required [.text "b", bad] "b"]
    let table : Node := .environment "tabular" [.mk .required [.text "l"] "l"] [.text "c", note]
    let queue : List Node := [.environment "enumerate" [] [.command "item" [], .text "a", table]]
    let s : State := { State.start ctx .empty with out := "p \n", inParagraph := true }
    let fault : Fault := .render (.badArgument "verbplaceholder" (.noVerbatim "x"))
    (nodes ctx queue s).1 = .error fault ∧ Frames s (nodes ctx queue s).2 ∧
      (asText ctx (nodes ctx queue) s).1 = .error fault ∧
      (asText ctx (nodes ctx queue) s).2.out = "p \n" := by
  intro ctx bad note table queue s fault
  have failed : (asText ctx (nodes ctx queue) s).1 = .error fault := by decide +kernel
  obtain ⟨frames, unread⟩ := frames_nodes ctx queue s
  exact ⟨by decide +kernel, frames, failed, (unread fault _ (Prod.ext failed rfl)).1⟩

/-- A chapter that is rendered publishes images and does nothing else to files, whatever other
jobs do to them in between. -/
theorem runs_renderOn (ctx : Context) (desk : Desk) (chapter : List Node) :
    desk.Runs (Asset.Publishes ctx.assets) (renderOn ctx desk chapter).2 := by
  have runs := (course_nodes ctx chapter { State.start ctx desk.disk with desk }).runs
  unfold renderOn
  split
  next s done => rwa [done] at runs
  next fault s failed => rwa [failed] at runs

end Quire.Walk
