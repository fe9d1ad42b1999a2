import Quire.Proofs.Prose.Outcome
import Quire.Proofs.Walk.Course

/-! Two walks abreast, in contexts that differ in the label index and in the target. They write
different texts, and no text that is written decides what fault a later step meets or what it
reports. Each of the two walks follows its course. -/
namespace Quire.Walk

inductive Context.Kin : Context → Context → Prop
  | mk (ctx : Context) (labels labels' : LabelIndex) (target target' : Target) :
    Kin { ctx with labels, target } { ctx with labels := labels', target := target' }

/-- The two indexes know the same labels, maybe under other numbers. -/
def Context.SameLabels (a b : Context) : Prop :=
  ∀ label, (a.labels.get? label).isSome = (b.labels.get? label).isSome

/-- What decides where text goes, which files are asked for, and with that every fault. -/
structure Bearing where
  depth : Nat
  blockDepth : Nat
  inline : Bool
  inTable : Bool
  floatLabel : Option String
  drawings : Nat

def State.bearing (s : State) : Bearing :=
  ⟨s.depth, s.blockDepth, s.inline, s.table.isSome, s.floatLabel, s.drawings⟩

def Bears (s t : State) : Prop := s.bearing = t.bearing

/-- Two walks that are at the same point, up to the access to files that parts them. -/
structure Alike (n : Nat) (a b : Context) (s t : State) : Prop where
  bearing_eq : Bears s t
  inStep : s.desk.InStep n t.desk
  unknown_eq : s.diagnostics.unknown = t.diagnostics.unknown
  unresolved_eq : a.SameLabels b → s.diagnostics.unresolved = t.diagnostics.unresolved

structure Match {α β : Type} (n : Nat) (a b : Context) (p : α → β → Prop)
    (x : Except Fault α × State) (y : Except Fault β × State) : Prop where
  answers : Answers p x.1 y.1
  alike : Alike n a b x.2 y.2

class Coupled {α β : Type} (p : α → β → Prop) : Prop where
  right : ∀ x, ∃ y, p x y
  left : ∀ y, ∃ x, p x y

instance {α : Type} : Coupled (@Eq α) := ⟨fun x => ⟨x, rfl⟩, fun x => ⟨x, rfl⟩⟩

instance {α β : Type} [Nonempty α] [Nonempty β] : Coupled (@Unrelated α β) :=
  ⟨fun _ => ⟨Classical.ofNonempty, trivial⟩, fun _ => ⟨Classical.ofNonempty, trivial⟩⟩

instance : Coupled Bears := ⟨fun s => ⟨s, rfl⟩, fun s => ⟨s, rfl⟩⟩

instance {α : Type} : Coupled fun x y : Option α => x.isSome = y.isSome :=
  ⟨fun x => ⟨x, rfl⟩, fun x => ⟨x, rfl⟩⟩

/-- Each of the two steps follows its course, and unless they are parted they come out alike. -/
structure Abreast {α β : Type} (n : Nat) (a b : Context) (p : α → β → Prop) (f : Walk α)
    (g : Walk β) : Prop where
  left : ∀ s, Course a s (f s).2
  right : ∀ t, Course b t (g t).2
  meets : ∀ s t, Alike n a b s t → ¬ (f s).2.desk.Parted n (g t).2.desk →
    Match n a b p (f s) (g t)

/-- The step answers, and of all that matters to a walk abreast of it, it changes at most the labels
that were missed. -/
structure Reports {α : Type} (ctx : Context) (missing : List String) (step : Walk α) : Prop where
  answers : ∀ s, (step s).1.isOk = true
  bearing_eq : ∀ s, (step s).2.bearing = s.bearing
  desk_eq : ∀ s, (step s).2.desk = s.desk
  diagnostics_eq : ∀ s, (step s).2.diagnostics =
    { s.diagnostics with unresolved := missing.foldl Diagnostics.addLabel s.diagnostics.unresolved }
  course : ∀ s, Course ctx s (step s).2

abbrev Silent {α : Type} (ctx : Context) (step : Walk α) : Prop := Reports ctx [] step

structure Quiet (ctx : Context) (s t : State) : Prop where
  bearing_eq : t.bearing = s.bearing
  desk_eq : t.desk = s.desk
  diagnostics_eq : t.diagnostics = s.diagnostics
  course : Course ctx s t

section Bearing
variable {flavor : Flavor}

theorem bearing_layTable (act : Table.Layout → String × Table.Layout) (s : State) :
    (s.layTable act).bearing = s.bearing := by
  unfold State.layTable
  split
  next => rfl
  next layout open_ => simp [State.bearing, open_]

theorem diagnostics_layTable (act : Table.Layout → String × Table.Layout) (s : State) :
    (s.layTable act).diagnostics = s.diagnostics := by
  unfold State.layTable
  split <;> rfl

theorem bearing_openParagraph (s : State) : (s.openParagraph flavor).bearing = s.bearing := by
  unfold State.openParagraph
  split
  · exact bearing_layTable _ s
  · split <;> rfl

theorem diagnostics_openParagraph (s : State) :
    (s.openParagraph flavor).diagnostics = s.diagnostics := by
  unfold State.openParagraph
  split
  · exact diagnostics_layTable _ s
  · split <;> rfl

theorem bearing_closeParagraph (s : State) : (s.closeParagraph flavor).bearing = s.bearing := by
  unfold State.closeParagraph
  split <;> rfl

theorem diagnostics_closeParagraph (s : State) :
    (s.closeParagraph flavor).diagnostics = s.diagnostics := by
  unfold State.closeParagraph
  split <;> rfl

theorem bearing_finishTable (outer : Option Table.Layout) (s : State) :
    (s.finishTable outer).bearing = { s.bearing with inTable := outer.isSome } := by
  unfold State.finishTable
  split <;> rfl

theorem diagnostics_finishTable (outer : Option Table.Layout) (s : State) :
    (s.finishTable outer).diagnostics = s.diagnostics := by
  unfold State.finishTable
  split <;> rfl

end Bearing

namespace Quiet

variable {ctx : Context} {s t u : State}

theorem refl (s : State) : Quiet ctx s s := ⟨rfl, rfl, rfl, .refl s⟩

theorem trans (first : Quiet ctx s t) (second : Quiet ctx t u) : Quiet ctx s u :=
  ⟨second.bearing_eq.trans first.bearing_eq, second.desk_eq.trans first.desk_eq,
    second.diagnostics_eq.trans first.diagnostics_eq, first.course.trans second.course⟩

theorem write (s : State) (text : String) : Quiet ctx s (s.write text) :=
  ⟨rfl, rfl, rfl, .write s text⟩

theorem openParagraph (s : State) : Quiet ctx s (s.openParagraph ctx.flavor) :=
  ⟨bearing_openParagraph s, desk_openParagraph s, diagnostics_openParagraph s, .openParagraph s⟩

theorem closeParagraph (s : State) : Quiet ctx s (s.closeParagraph ctx.flavor) :=
  ⟨bearing_closeParagraph s, desk_closeParagraph s, diagnostics_closeParagraph s,
    .closeParagraph s⟩

theorem lay (op : Table.Operation) (s : State) : Quiet ctx s (s.layTable (·.perform op)) :=
  ⟨bearing_layTable _ s, desk_layTable _ s, diagnostics_layTable _ s, .lay s op⟩

end Quiet

namespace Bears

variable {s t : State}

theorem inTable_eq (bears : Bears s t) : s.table.isSome = t.table.isSome :=
  congrArg Bearing.inTable bears

theorem inline_eq (bears : Bears s t) : s.inline = t.inline := congrArg Bearing.inline bears

theorem depth_eq (bears : Bears s t) : s.depth = t.depth := congrArg Bearing.depth bears

theorem blockDepth_eq (bears : Bears s t) : s.blockDepth = t.blockDepth :=
  congrArg Bearing.blockDepth bears

theorem floatLabel_eq (bears : Bears s t) : s.floatLabel = t.floatLabel :=
  congrArg Bearing.floatLabel bears

theorem drawings_eq (bears : Bears s t) : s.drawings = t.drawings :=
  congrArg Bearing.drawings bears

end Bears

namespace Alike

variable {n : Nat} {a b : Context} {s t s' t' : State}

/-- The same change of bearing on both sides. -/
theorem turn (alike : Alike n a b s t) (change : Bearing → Bearing)
    (left : s'.bearing = change s.bearing) (right : t'.bearing = change t.bearing)
    (desk : s'.desk = s.desk) (desk' : t'.desk = t.desk)
    (same : s'.diagnostics = s.diagnostics) (same' : t'.diagnostics = t.diagnostics) :
    Alike n a b s' t' where
  bearing_eq := by rw [Bears, left, right, alike.bearing_eq]
  inStep := by rw [desk, desk']; exact alike.inStep
  unknown_eq := by rw [same, same', alike.unknown_eq]
  unresolved_eq := fun labels => by rw [same, same', alike.unresolved_eq labels]

theorem record (alike : Alike n a b s t) (diagnostic : Diagnostic) :
    Alike n a b (s.record diagnostic) (t.record diagnostic) := by
  obtain ⟨bearing_eq, inStep, unknown_eq, unresolved_eq⟩ := alike
  cases diagnostic with
  | unknownNode name =>
    exact ⟨bearing_eq, inStep, congrArg (Diagnostics.insertName name) unknown_eq, unresolved_eq⟩
  | unresolved label =>
    exact ⟨bearing_eq, inStep, unknown_eq,
      fun labels => congrArg (Diagnostics.addLabel · label) (unresolved_eq labels)⟩

theorem child (alike : Alike n a b s t) : Alike n a b (s.child a) (t.child b) :=
  ⟨rfl, alike.inStep, rfl, fun _ => rfl⟩

theorem drop (alike : Alike n a b s t) (inner : Alike n a b s' t') :
    Alike n a b { s with desk := s'.desk } { t with desk := t'.desk } :=
  ⟨alike.bearing_eq, inner.inStep, alike.unknown_eq, alike.unresolved_eq⟩

theorem merge (alike : Alike n a b s t) (inner : Alike n a b s' t') :
    Alike n a b (s.merge s') (t.merge t') where
  bearing_eq := alike.bearing_eq
  inStep := inner.inStep
  unknown_eq := by
    simp only [State.merge, Diagnostics.merge, alike.unknown_eq, inner.unknown_eq]
  unresolved_eq := fun labels => by
    simp only [State.merge, Diagnostics.merge, alike.unresolved_eq labels,
      inner.unresolved_eq labels]

end Alike

namespace Reports

variable {ctx : Context} {α β : Type} {step : Walk α} {next : α → Walk β}
  {missing more : List String}

theorem pure (x : α) : Silent ctx (pure x) :=
  ⟨fun _ => rfl, fun _ => rfl, fun _ => rfl, fun _ => rfl, .refl⟩

theorem get : Silent ctx Walk.get :=
  ⟨fun _ => rfl, fun _ => rfl, fun _ => rfl, fun _ => rfl, .refl⟩

theorem record (label : String) : Reports ctx [label] (Walk.record (.unresolved label)) :=
  ⟨fun _ => rfl, fun _ => rfl, fun _ => rfl, fun _ => rfl, fun s => .record s _⟩

theorem append (first : Reports ctx missing step) (second : ∀ x, Reports ctx more (next x)) :
    Reports ctx (missing ++ more) (step >>= next) := by
  have both (s : State) : ∃ x t, step s = (.ok x, t) ∧ (step >>= next) s = next x t := by
    cases ran : step s with
    | mk result t =>
      cases result with
      | error fault =>
        have answered := first.answers s
        rw [ran] at answered
        cases answered
      | ok x => exact ⟨x, t, rfl, by simp only [Bind.bind, bind_, ran]⟩
  constructor <;> intro s <;> obtain ⟨x, t, ran, eq⟩ := both s <;> rw [eq]
  · exact (second x).answers t
  · rw [(second x).bearing_eq, ← first.bearing_eq s, ran]
  · rw [(second x).desk_eq, ← first.desk_eq s, ran]
  · have reported := first.diagnostics_eq s
    rw [ran] at reported
    rw [(second x).diagnostics_eq, reported, List.foldl_append]
  · have course := first.course s
    rw [ran] at course
    exact course.trans ((second x).course t)

theorem bind (first : Silent ctx step) (second : ∀ x, Silent ctx (next x)) :
    Silent ctx (step >>= next) :=
  append first second

theorem modify {f : State → State} (quiet : ∀ s, Quiet ctx s (f s)) :
    Silent ctx (Walk.modify f) where
  answers := fun _ => rfl
  bearing_eq := fun s => (quiet s).bearing_eq
  desk_eq := fun s => (quiet s).desk_eq
  diagnostics_eq := fun s => (quiet s).diagnostics_eq
  course := fun s => (quiet s).course

theorem write (text : String) : Silent ctx (Walk.write text) := modify (.write · text)

theorem openParagraph : Silent ctx (Walk.openParagraph ctx) := modify .openParagraph

theorem closeParagraph : Silent ctx (Walk.closeParagraph ctx) := modify .closeParagraph

theorem lay (op : Table.Operation) : Silent ctx (Walk.modify (·.layTable (·.perform op))) :=
  modify (.lay op)

theorem ite {c : Prop} [Decidable c] {other : Walk α} (yes : Silent ctx step)
    (no : Silent ctx other) : Silent ctx (if c then step else other) := by
  split
  · exact yes
  · exact no

end Reports

namespace Abreast

variable {n : Nat} {a b : Context} {α β γ δ : Type} {f : Walk α} {g : Walk β} {p : α → β → Prop}
  {q : γ → δ → Prop} {next : α → Walk γ} {next' : β → Walk δ}

theorem pure {x : α} {y : β} (related : p x y) : Abreast n a b p (pure x) (pure y) :=
  ⟨.refl, .refl, fun _ _ alike _ => ⟨.ok related, alike⟩⟩

theorem fail (fault : Fault) : Abreast n a b p (Walk.fail fault) (Walk.fail fault) :=
  ⟨.refl, .refl, fun _ _ alike _ => ⟨.error fault, alike⟩⟩

theorem get : Abreast n a b Bears Walk.get Walk.get :=
  ⟨.refl, .refl, fun _ _ alike _ => ⟨.ok alike.bearing_eq, alike⟩⟩

/-- What comes after a step follows the course of one of the steps that may come after it. -/
theorem course_bind {ctx : Context} (rest : ∀ x t, Course ctx t (next x t).2) (s : State) :
    Course ctx (f s).2 ((f >>= next) s).2 := by
  simp only [Bind.bind, bind_]
  generalize f s = x
  obtain ⟨_ | x, t⟩ := x
  · exact .refl t
  · exact rest x t

theorem bind [Coupled p] (first : Abreast n a b p f g)
    (second : ∀ x y, p x y → Abreast n a b q (next x) (next' y)) :
    Abreast n a b q (f >>= next) (g >>= next') := by
  have left : ∀ s, Course a (f s).2 ((f >>= next) s).2 := course_bind fun x =>
    (second x _ (Coupled.right x).choose_spec).left
  have right : ∀ t, Course b (g t).2 ((g >>= next') t).2 := course_bind fun y =>
    (second _ y (Coupled.left y).choose_spec).right
  refine ⟨fun s => (first.left s).trans (left s), fun t => (first.right t).trans (right t), ?_⟩
  intro s t alike apart
  obtain ⟨answers, alike⟩ := first.meets s t alike
    (mt (·.runs (left s).runs (right t).runs) apart)
  simp only [Bind.bind, bind_] at apart ⊢
  generalize f s = x at *
  generalize g t = y at *
  obtain ⟨result, s'⟩ := x
  obtain ⟨result', t'⟩ := y
  cases answers with
  | error fault => exact ⟨.error fault, alike⟩
  | ok related => exact (second _ _ related).meets s' t' alike apart

theorem ofExcept {x : Except Fault α} {y : Except Fault β} (same : Answers p x y) :
    Abreast n a b p (Walk.ofExcept x) (Walk.ofExcept y) := by
  cases same with
  | ok related => exact pure related
  | error fault => exact fail fault

theorem rendering {x : Except RenderFault α} {y : Except RenderFault β} (same : Answers p x y) :
    Abreast n a b p (Walk.rendering x) (Walk.rendering y) := by
  cases same with
  | ok related => exact pure related
  | error fault => exact fail _

theorem onDisk {job : Asset.Job α} (kin : a.Kin b) (publishes : Asset.Job.Publishes a.assets job) :
    Abreast n a b Eq (Walk.onDisk job) (Walk.onDisk job) where
  left := fun s => .files s _ (publishes s.desk.next)
  right := by
    have publishes' : Asset.Job.Publishes b.assets job := by
      cases kin
      exact publishes
    exact fun t => .files t _ (publishes' t.desk.next)
  meets := by
    intro s t alike apart
    obtain parted | ⟨same, inStep⟩ := alike.inStep.visit job
    · exact absurd parted apart
    refine ⟨?_, alike.bearing_eq, inStep, alike.unknown_eq, alike.unresolved_eq⟩
    simp only [Walk.onDisk, same]
    exact .refl _

theorem reports {missing missing' : List String} (left : Reports a missing f)
    (right : Reports b missing' g) (same : a.SameLabels b → missing = missing') :
    Abreast n a b Unrelated f g := by
  refine ⟨left.course, right.course, fun s t alike _ => ⟨?_, ?_, ?_, ?_, fun labels => ?_⟩⟩
  · have answered := left.answers s
    have answered' := right.answers t
    cases result : (f s).1 with
    | error fault => rw [result] at answered; cases answered
    | ok x =>
      cases result' : (g t).1 with
      | error fault => rw [result'] at answered'; cases answered'
      | ok y => exact .ok trivial
  · rw [Bears, left.bearing_eq, right.bearing_eq, alike.bearing_eq]
  · rw [left.desk_eq, right.desk_eq]
    exact alike.inStep
  · rw [left.diagnostics_eq, right.diagnostics_eq, alike.unknown_eq]
  · rw [left.diagnostics_eq, right.diagnostics_eq, alike.unresolved_eq labels, same labels]

theorem silent (left : Silent a f) (right : Silent b g) : Abreast n a b Unrelated f g :=
  reports left right fun _ => rfl

theorem write (x y : String) : Abreast n a b Unrelated (Walk.write x) (Walk.write y) :=
  silent (.write x) (.write y)

theorem openParagraph : Abreast n a b Unrelated (Walk.openParagraph a) (Walk.openParagraph b) :=
  silent .openParagraph .openParagraph

theorem closeParagraph :
    Abreast n a b Unrelated (Walk.closeParagraph a) (Walk.closeParagraph b) :=
  silent .closeParagraph .closeParagraph

theorem record (diagnostic : Diagnostic) :
    Abreast n a b Unrelated (Walk.record diagnostic) (Walk.record diagnostic) :=
  ⟨(.record · _), (.record · _), fun _ _ alike _ => ⟨.ok trivial, alike.record diagnostic⟩⟩

theorem ite {c : Prop} [Decidable c] {f' : Walk α} {g' : Walk β} (yes : Abreast n a b p f g)
    (no : Abreast n a b p f' g') :
    Abreast n a b p (if c then f else f') (if c then g else g') := by
  split
  · exact yes
  · exact no

theorem forM {ι : Type} {act act' : ι → Walk Unit} (items : List ι)
    (each : ∀ item, Abreast n a b Unrelated (act item) (act' item)) :
    Abreast n a b Unrelated (items.forM act) (items.forM act') := by
  induction items with
  | nil => exact pure trivial
  | cons item items ih => exact bind (each item) fun _ _ _ => ih

theorem deeper (inner : Abreast n a b p f g) :
    Abreast n a b p (Walk.deeper f) (Walk.deeper g) := by
  refine ⟨fun s => .deeper (inner.left _), fun t => .deeper (inner.right _), ?_⟩
  intro s t alike apart
  have entered : Alike n a b { s with depth := s.depth + 1 } { t with depth := t.depth + 1 } :=
    alike.turn (fun v => { v with depth := v.depth + 1 }) rfl rfl rfl rfl rfl rfl
  obtain ⟨answers, alike⟩ := inner.meets _ _ entered apart
  exact ⟨answers,
    alike.turn (fun v => { v with depth := v.depth - 1 }) rfl rfl rfl rfl rfl rfl⟩

theorem inlined (inner : Abreast n a b p f g) :
    Abreast n a b p (Walk.inlined f) (Walk.inlined g) := by
  refine ⟨fun s => .inlined (inner.left _), fun t => .inlined (inner.right _), ?_⟩
  intro s t before apart
  have entered : Alike n a b { s with inline := true } { t with inline := true } :=
    before.turn (fun v => { v with inline := true }) rfl rfl rfl rfl rfl rfl
  obtain ⟨answers, alike⟩ := inner.meets _ _ entered apart
  refine ⟨answers, ?_⟩
  exact alike.turn (fun v => { v with inline := s.inline }) rfl
    (by rw [before.bearing_eq.inline_eq]; rfl) rfl rfl rfl rfl

theorem blocked (inner : Abreast n a b p f g) :
    Abreast n a b p (Walk.blocked a.flavor f) (Walk.blocked b.flavor g) := by
  refine ⟨fun s => .blocked (inner.left _), fun t => .blocked (inner.right _), ?_⟩
  intro s t before apart
  have entered : Alike n a b { s.closeParagraph a.flavor with blockDepth := s.depth + 1 }
      { t.closeParagraph b.flavor with blockDepth := t.depth + 1 } :=
    before.turn (fun v => { v with blockDepth := v.depth + 1 })
      (congrArg (fun v : Bearing => { v with blockDepth := s.depth + 1 })
        (bearing_closeParagraph s))
      (congrArg (fun v : Bearing => { v with blockDepth := t.depth + 1 })
        (bearing_closeParagraph t))
      (desk_closeParagraph s) (desk_closeParagraph t)
      (diagnostics_closeParagraph s) (diagnostics_closeParagraph t)
  have inside : ¬ (f { s.closeParagraph a.flavor with blockDepth := s.depth + 1 }).2.desk.Parted n
      (g { t.closeParagraph b.flavor with blockDepth := t.depth + 1 }).2.desk := by
    simpa only [Walk.blocked, within, desk_closeParagraph] using apart
  obtain ⟨answers, alike⟩ := inner.meets _ _ entered inside
  refine ⟨answers, ?_⟩
  exact alike.turn (fun v => { v with blockDepth := s.blockDepth })
    (congrArg (fun v : Bearing => { v with blockDepth := s.blockDepth }) (bearing_closeParagraph _))
    (by
      rw [before.bearing_eq.blockDepth_eq]
      exact congrArg (fun v : Bearing => { v with blockDepth := t.blockDepth })
        (bearing_closeParagraph _))
    (desk_closeParagraph _) (desk_closeParagraph _)
    (diagnostics_closeParagraph _) (diagnostics_closeParagraph _)

theorem listed (kind : ListKind) (inner : Abreast n a b p f g) :
    Abreast n a b p
      (within (fun s => { s with lists := kind :: s.lists })
        (fun _ t => { t with lists := t.lists.tail }) f)
      (within (fun s => { s with lists := kind :: s.lists })
        (fun _ t => { t with lists := t.lists.tail }) g) := by
  refine ⟨fun s => .listed kind (inner.left _), fun t => .listed kind (inner.right _), ?_⟩
  intro s t before apart
  have entered :
      Alike n a b { s with lists := kind :: s.lists } { t with lists := kind :: t.lists } :=
    before.turn id rfl rfl rfl rfl rfl rfl
  obtain ⟨answers, alike⟩ := inner.meets _ _ entered apart
  exact ⟨answers, alike.turn id rfl rfl rfl rfl rfl rfl⟩

theorem floated (class_ : String) (label : Option String) (inner : Abreast n a b p f g) :
    Abreast n a b p
      (within (fun s => { s.write (a.flavor.blockOpen class_) with floatLabel := label })
        (fun s t => { t.write a.flavor.blockClose with floatLabel := s.floatLabel }) f)
      (within (fun s => { s.write (b.flavor.blockOpen class_) with floatLabel := label })
        (fun s t => { t.write b.flavor.blockClose with floatLabel := s.floatLabel }) g) := by
  refine ⟨fun s => .floated class_ label (inner.left _),
    fun t => .floated class_ label (inner.right _), ?_⟩
  intro s t before apart
  have entered : Alike n a b { s.write (a.flavor.blockOpen class_) with floatLabel := label }
      { t.write (b.flavor.blockOpen class_) with floatLabel := label } :=
    before.turn (fun v => { v with floatLabel := label }) rfl rfl rfl rfl rfl rfl
  obtain ⟨answers, alike⟩ := inner.meets _ _ entered apart
  refine ⟨answers, ?_⟩
  exact alike.turn (fun v => { v with floatLabel := s.floatLabel }) rfl
    (by rw [before.bearing_eq.floatLabel_eq]; rfl) rfl rfl rfl rfl

theorem tabled (columns : Nat) (inner : Abreast n a b p f g) :
    Abreast n a b p
      (within (·.startTable columns) (fun s t => t.finishTable s.table) f)
      (within (·.startTable columns) (fun s t => t.finishTable s.table) g) := by
  refine ⟨fun s => .tabled columns (inner.left _), fun t => .tabled columns (inner.right _), ?_⟩
  intro s t before apart
  have entered : Alike n a b (s.startTable columns) (t.startTable columns) :=
    before.turn (fun v => { v with inTable := true }) rfl rfl rfl rfl rfl rfl
  have inside : ¬ (f (s.startTable columns)).2.desk.Parted n
      (g (t.startTable columns)).2.desk := by
    simpa only [within, desk_finishTable] using apart
  obtain ⟨answers, alike⟩ := inner.meets _ _ entered inside
  refine ⟨answers, ?_⟩
  refine alike.turn (fun v => { v with inTable := s.table.isSome })
    (bearing_finishTable s.table _) ?_ (desk_finishTable _ _) (desk_finishTable _ _)
    (diagnostics_finishTable _ _) (diagnostics_finishTable _ _)
  rw [before.bearing_eq.inTable_eq]
  exact bearing_finishTable t.table _

theorem course_asText {ctx : Context} {f : Walk Unit} (inner : ∀ s, Course ctx s (f s).2)
    (s : State) : Course ctx s (Walk.asText ctx f s).2 := by
  have course := inner (s.child ctx)
  simp only [Walk.asText]
  generalize f (s.child ctx) = x at *
  obtain ⟨_ | _, t⟩ := x
  · exact .dropped course
  · exact .merged course

theorem asText {f g : Walk Unit} {p : Unit → Unit → Prop} (inner : Abreast n a b p f g) :
    Abreast n a b Unrelated (Walk.asText a f) (Walk.asText b g) := by
  refine ⟨course_asText inner.left, course_asText inner.right, ?_⟩
  intro s t alike apart
  have met := inner.meets _ _ alike.child
  simp only [Walk.asText] at apart ⊢
  generalize f (s.child a) = x at *
  generalize g (t.child b) = y at *
  obtain ⟨result, s'⟩ := x
  obtain ⟨result', t'⟩ := y
  have inside : ¬ s'.desk.Parted n t'.desk := by
    cases result <;> cases result' <;> exact apart
  obtain ⟨answers, inside⟩ := met inside
  cases answers with
  | ok => exact ⟨.ok trivial, alike.merge inside⟩
  | error fault => exact ⟨.error fault, alike.drop inside⟩

end Abreast

end Quire.Walk
