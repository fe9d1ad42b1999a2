import Quire.Proofs.Walk.Handlers

/-! What the rendering of a chapter owes neither to the target nor to the label index. Both decide
much of its text, and the target also decides where paragraphs start; they decide neither its fault
nor what becomes of the files. -/
namespace Quire.Walk

theorem diagnostics_finish (ctx : Context) (s : State) :
    (s.finish ctx).diagnostics = s.diagnostics := by
  simp only [State.finish]
  rw [diagnostics_finishTable, diagnostics_closeParagraph]

/-- The number of the chapter comes from the label index, but it only goes into the counters. -/
theorem alike_start {n : Nat} (a b : Context) {desk desk' : Desk} (inStep : desk.InStep n desk') :
    Alike n a b { State.start a desk.disk with desk } { State.start b desk'.disk with desk := desk' } :=
  ⟨rfl, inStep, rfl, fun _ => rfl⟩

theorem answers_renderOn {a b : Context} (kin : a.Kin b) {n : Nat} {desk desk' : Desk}
    (inStep : desk.InStep n desk') (chapter : List Node) :
    (renderOn a desk chapter).2.Parted n (renderOn b desk' chapter).2 ∨
      Answers (fun x y => x.diagnostics.unknown = y.diagnostics.unknown ∧
          (a.SameLabels b → x.diagnostics = y.diagnostics))
        (renderOn a desk chapter).1 (renderOn b desk' chapter).1 ∧
      (renderOn a desk chapter).2.InStep n (renderOn b desk' chapter).2 := by
  have met := (abreast_nodes (n := n) kin chapter).meets _ _ (alike_start a b inStep)
  unfold renderOn
  generalize nodes a chapter { State.start a desk.disk with desk } = x at *
  generalize nodes b chapter { State.start b desk'.disk with desk := desk' } = y at *
  obtain ⟨result, s⟩ := x
  obtain ⟨result', t⟩ := y
  by_cases parted : s.desk.Parted n t.desk
  · cases result <;> cases result' <;> exact .inl parted
  obtain ⟨answers, alike⟩ := met parted
  refine .inr ?_
  cases answers with
  | error fault => exact ⟨.error fault, alike.inStep⟩
  | ok =>
    refine ⟨.ok ⟨?_, fun labels => ?_⟩, alike.inStep⟩
    · rw [diagnostics_finish, diagnostics_finish]
      exact alike.unknown_eq
    · rw [diagnostics_finish, diagnostics_finish]
      exact congrArg₂ Diagnostics.mk alike.unknown_eq (alike.unresolved_eq labels)

theorem answers_render {a b : Context} (kin : a.Kin b) (disk : Disk) (chapter : List Node) :
    Answers (fun x y => x.diagnostics.unknown = y.diagnostics.unknown ∧
        (a.SameLabels b → x.diagnostics = y.diagnostics))
      (render a disk chapter).1 (render b disk chapter).1 ∧
    (render a disk chapter).2 = (render b disk chapter).2 := by
  obtain parted | ⟨answers, inStep⟩ := answers_renderOn kin (.refl (a := .alone disk)
    (n := (renderOn a (.alone disk) chapter).2.visits.length) (Nat.zero_le _)) chapter
  · exact absurd parted.many (lt_irrefl _)
  · exact ⟨answers, inStep.disk_eq⟩

/-- For every target a chapter has the same fault, or none and the same diagnostics. -/
theorem diagnostics_render_of_targets (ctx : Context) (target target' : Target) (disk : Disk)
    (chapter : List Node) :
    (render { ctx with target } disk chapter).1.map (·.diagnostics) =
        (render { ctx with target := target' } disk chapter).1.map (·.diagnostics) ∧
      (render { ctx with target } disk chapter).2 =
        (render { ctx with target := target' } disk chapter).2 := by
  have kin : Context.Kin { ctx with target } { ctx with target := target' } :=
    .mk ctx ctx.labels ctx.labels target target'
  obtain ⟨answers, files⟩ := answers_render kin disk chapter
  exact ⟨answers.map_eq fun _ _ same => same.2 fun _ => rfl, files⟩

/-- Under every label index a chapter has the same fault, or none and the same unknown nodes. -/
theorem unknown_render_of_labels (ctx : Context) (labels labels' : LabelIndex) (disk : Disk)
    (chapter : List Node) :
    (render { ctx with labels } disk chapter).1.map (·.diagnostics.unknown) =
        (render { ctx with labels := labels' } disk chapter).1.map (·.diagnostics.unknown) ∧
      (render { ctx with labels } disk chapter).2 =
        (render { ctx with labels := labels' } disk chapter).2 := by
  have kin : Context.Kin { ctx with labels } { ctx with labels := labels' } :=
    .mk ctx labels labels' ctx.target ctx.target
  obtain ⟨answers, files⟩ := answers_render kin disk chapter
  exact ⟨answers.map_eq fun _ _ same => same.1, files⟩

end Quire.Walk
