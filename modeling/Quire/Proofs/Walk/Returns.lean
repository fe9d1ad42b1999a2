import Mathlib.Data.List.Forall2
import Quire.Proofs.Text.Relined
import Quire.Proofs.Walk.Abreast

/-! Two walks of which the second reads carriage returns at line ends. While the first does not
fail, the second follows it: it takes the same turns, and what the two write differs in white space
at line ends and next to tags. -/
namespace Quire.Walk

open Text (SameLines)

structure Place where
  depth : Nat
  blockDepth : Nat
  inline : Bool
  inTable : Bool
deriving DecidableEq, Repr

namespace Place

def chapter : Place := ⟨1, 1, false, false⟩

def text : Place := ⟨0, 1, true, false⟩

def below (place : Place) : Place := { place with depth := place.depth + 1 }

def inlined (place : Place) : Place := { place with inline := true }

def blocked (place : Place) : Place := { place with blockDepth := place.depth + 1 }

def tabled (place : Place) : Place := { place with inTable := true }

def forms (place : Place) : Bool :=
  !place.inTable && !place.inline && place.depth == place.blockDepth

end Place

def State.place (s : State) : Place := ⟨s.depth, s.blockDepth, s.inline, s.table.isSome⟩

theorem place_of_bearing {s t : State} (same : t.bearing = s.bearing) : t.place = s.place :=
  congrArg (fun v : Bearing => (⟨v.depth, v.blockDepth, v.inline, v.inTable⟩ : Place)) same

/-- States that differ in the line ends of their texts, and in what no step looks at. -/
inductive Twins : State → State → Prop
  | mk (s : State) {out : String} {notes : List String} {marks : List Mark}
    {diagnostics : Diagnostics} {strays : List String} (out_same : SameLines s.out out)
    (notes_same : List.Forall₂ SameLines s.footnotes notes) :
    Twins s { s with out, footnotes := notes, marks, diagnostics, strays }

namespace Twins

variable {s t s' t' : State} {flavor : Flavor} {ctx : Context}

theorem refl (s : State) : Twins s s :=
  .mk s (.refl _) (List.forall₂_same.mpr fun note _ => .refl note)

theorem write (twins : Twins s t) {text text' : String} (same : SameLines text text') :
    Twins (s.write text) (t.write text') := by
  obtain ⟨out_same, notes_same⟩ := twins
  exact .mk (s.write text) (out_same.append same) notes_same

theorem layTable (twins : Twins s t) (act : Table.Layout → String × Table.Layout) :
    Twins (s.layTable act) (t.layTable act) := by
  obtain ⟨out_same, notes_same⟩ := twins
  rcases s with ⟨out, depth, blockDepth, inParagraph, inline, table⟩
  cases table with
  | none => exact .mk _ out_same notes_same
  | some layout => exact .mk _ (out_same.append (.refl _)) notes_same

theorem openParagraph (twins : Twins s t) :
    Twins (s.openParagraph flavor) (t.openParagraph flavor) := by
  unfold State.openParagraph
  have laid := twins.layTable (·.ensureCell)
  obtain ⟨out_same, notes_same⟩ := twins
  dsimp only
  split
  · exact laid
  split
  · exact .mk { s.write flavor.paragraphOpen with
      inParagraph := true, paragraphTags := s.paragraphTags ++ [.opening] }
      (out_same.append (.refl _)) notes_same
  · exact .mk s out_same notes_same

theorem trim (twins : Twins s t) :
    Twins { s with out := Text.trimEnd s.out } { t with out := Text.trimEnd t.out } := by
  obtain ⟨out_same, notes_same⟩ := twins
  exact .mk { s with out := Text.trimEnd s.out } out_same.trimEnd notes_same

theorem tag (twins : Twins s t) (inParagraph : Bool) (tag : ParagraphTag) :
    Twins { s with inParagraph, paragraphTags := s.paragraphTags ++ [tag] }
      { t with inParagraph, paragraphTags := t.paragraphTags ++ [tag] } := by
  obtain ⟨out_same, notes_same⟩ := twins
  exact .mk { s with inParagraph, paragraphTags := s.paragraphTags ++ [tag] } out_same notes_same

theorem closeParagraph (twins : Twins s t) :
    Twins (s.closeParagraph flavor) (t.closeParagraph flavor) := by
  have closed := (twins.trim.write (.refl flavor.paragraphClose)).tag false .closing
  have same : t.inParagraph = s.inParagraph := by
    cases twins
    rfl
  unfold State.closeParagraph
  rw [same]
  split
  · exact closed
  · exact twins

theorem record (twins : Twins s t) (diagnostic diagnostic' : Diagnostic) :
    Twins (s.record diagnostic) (t.record diagnostic') := by
  obtain ⟨out_same, notes_same⟩ := twins
  exact .mk (s.record diagnostic) out_same notes_same

theorem finishTable (twins : Twins s t) (outer : Option Table.Layout) :
    Twins (s.finishTable outer) (t.finishTable outer) := by
  obtain ⟨out_same, notes_same⟩ := twins
  rcases s with ⟨out, depth, blockDepth, inParagraph, inline, table⟩
  cases table with
  | none => exact .mk _ out_same notes_same
  | some layout => exact .mk _ (out_same.append (.refl _)) notes_same

theorem child (twins : Twins s t) : Twins (s.child ctx) (t.child ctx) := by
  obtain ⟨out_same, notes_same⟩ := twins
  have length := notes_same.length_eq
  unfold State.child
  dsimp only
  rw [← length]
  exact .mk _ (.refl _) .nil

theorem merge (twins : Twins s t) (inner : Twins s' t') : Twins (s.merge s') (t.merge t') := by
  obtain ⟨out_same, notes_same⟩ := twins
  obtain ⟨-, more⟩ := inner
  exact .mk (s.merge s') out_same (List.rel_append notes_same more)

end Twins

/-- At a place, where the first step answers, the second does so too, and both stay there. -/
def Follows {α β : Type} (place : Place) (p : α → β → Prop) (f : Walk α) (g : Walk β) : Prop :=
  ∀ s t, s.place = place → Twins s t → ∀ a s', f s = (.ok a, s') →
    s'.place = place ∧ ∃ b t', g t = (.ok b, t') ∧ p a b ∧ Twins s' t'

namespace Follows

variable {α β γ δ : Type} {place : Place} {p : α → β → Prop} {q : γ → δ → Prop} {f : Walk α}
  {g : Walk β} {next : α → Walk γ} {next' : β → Walk δ} {ctx : Context}

theorem pure {x : α} {y : β} (related : p x y) : Follows place p (pure x) (pure y) := by
  intro s t here twins a s' ran
  cases ran
  exact ⟨here, y, t, rfl, related, twins⟩

theorem fail (fault : Fault) : Follows place p (Walk.fail fault) g := by
  intro s t _ _ a s' ran
  cases ran

theorem bind (first : Follows place p f g)
    (second : ∀ x y, p x y → Follows place q (next x) (next' y)) :
    Follows place q (f >>= next) (g >>= next') := by
  intro s t here twins c s'' ran
  simp only [Bind.bind, bind_] at ran ⊢
  split at ran
  next a s' step =>
    obtain ⟨here, b, t', step', related, twins⟩ := first s t here twins a s' step
    rw [step']
    exact second a b related s' t' here twins c s'' ran
  next => cases ran

/-- What holds of each answer of the first step may be used behind it. -/
theorem answering {r : α → Prop} (step : Follows place p f g)
    (answers : ∀ s a s', f s = (.ok a, s') → r a) :
    Follows place (fun a b => p a b ∧ r a) f g := by
  intro s t here twins a s' ran
  obtain ⟨here, b, t', ran', related, twins⟩ := step s t here twins a s' ran
  exact ⟨here, b, t', ran', ⟨related, answers s a s' ran⟩, twins⟩

theorem modify {change change' : State → State}
    (each : ∀ s t, s.place = place → Twins s t →
      (change s).place = place ∧ Twins (change s) (change' t)) :
    Follows place Unrelated (Walk.modify change) (Walk.modify change') := by
  intro s t here twins a s' ran
  cases ran
  obtain ⟨here, twins⟩ := each s t here twins
  exact ⟨here, (), change' t, rfl, trivial, twins⟩

theorem get : Follows place (fun s t => s.place = place ∧ Twins s t) Walk.get Walk.get := by
  intro s t here twins a s' ran
  cases ran
  exact ⟨here, t, t, rfl, ⟨here, twins⟩, twins⟩

theorem write {text text' : String} (same : SameLines text text') :
    Follows place Unrelated (Walk.write text) (Walk.write text') :=
  modify fun _ _ here twins => ⟨here, twins.write same⟩

theorem openParagraph :
    Follows place Unrelated (Walk.openParagraph ctx) (Walk.openParagraph ctx) :=
  modify fun s _ here twins =>
    ⟨(place_of_bearing (bearing_openParagraph s)).trans here, twins.openParagraph⟩

theorem closeParagraph :
    Follows place Unrelated (Walk.closeParagraph ctx) (Walk.closeParagraph ctx) :=
  modify fun s _ here twins =>
    ⟨(place_of_bearing (bearing_closeParagraph s)).trans here, twins.closeParagraph⟩

theorem layTable (act : Table.Layout → String × Table.Layout) :
    Follows place Unrelated (Walk.modify (·.layTable act)) (Walk.modify (·.layTable act)) :=
  modify fun s _ here twins =>
    ⟨(place_of_bearing (bearing_layTable act s)).trans here, twins.layTable act⟩

theorem record (diagnostic diagnostic' : Diagnostic) :
    Follows place Unrelated (Walk.record diagnostic) (Walk.record diagnostic') :=
  modify fun _ _ here twins => ⟨here, twins.record diagnostic diagnostic'⟩

theorem rendering {x : Except RenderFault α} {y : Except RenderFault β}
    (same : ∀ a, x = .ok a → ∃ b, y = .ok b ∧ p a b) :
    Follows place p (Walk.rendering x) (Walk.rendering y) := by
  cases x with
  | error e => exact fail _
  | ok a =>
    obtain ⟨b, rfl, related⟩ := same a rfl
    exact pure related

theorem ofExcept {x : Except Fault α} {y : Except Fault β}
    (same : ∀ a, x = .ok a → ∃ b, y = .ok b ∧ p a b) :
    Follows place p (Walk.ofExcept x) (Walk.ofExcept y) := by
  cases x with
  | error e => exact fail e
  | ok a =>
    obtain ⟨b, rfl, related⟩ := same a rfl
    exact pure related

theorem onDisk (job : Asset.Job α) : Follows place Eq (Walk.onDisk job) (Walk.onDisk job) := by
  intro s t here twins a s' ran
  obtain ⟨out_same, notes_same⟩ := twins
  obtain ⟨answered, rfl⟩ := Prod.mk.inj ran
  exact ⟨here, a, _, Prod.ext answered rfl, rfl,
    .mk { s with desk := (s.desk.visit job).2 } out_same notes_same⟩

theorem forM {ι κ : Type} {act : ι → Walk Unit} {act' : κ → Walk Unit} {items : List ι}
    {items' : List κ} (each : List.Forall₂ (fun x y => Follows place Unrelated (act x) (act' y))
      items items') : Follows place Unrelated (items.forM act) (items'.forM act') := by
  induction each with
  | nil => exact pure trivial
  | cons first _ ih => exact bind first fun _ _ _ => ih

theorem within {enter enter' : State → State} {leave leave' : State → State → State} {inner : Place}
    (entered : ∀ s t, s.place = place → Twins s t →
      (enter s).place = inner ∧ Twins (enter s) (enter' t))
    (left : ∀ s t s' t', s.place = place → Twins s t → s'.place = inner → Twins s' t' →
      (leave s s').place = place ∧ Twins (leave s s') (leave' t t'))
    (step : Follows inner p f g) :
    Follows place p (Walk.within enter leave f) (Walk.within enter' leave' g) := by
  intro s t here twins a s'' ran
  obtain ⟨there, entered⟩ := entered s t here twins
  rw [Walk.within] at ran ⊢
  cases walked : f (enter s) with
  | mk result s' =>
    rw [walked] at ran
    cases ran
    obtain ⟨there', b, t', walked', related, inside⟩ := step _ _ there entered a s' walked
    obtain ⟨back, twins⟩ := left s t s' t' here twins there' inside
    rw [walked']
    exact ⟨back, b, _, rfl, related, twins⟩

theorem deeper (step : Follows place.below p f g) :
    Follows place p (Walk.deeper f) (Walk.deeper g) := by
  refine within (fun s t here twins => ?_) (fun s t s' t' here twins there inside => ?_) step
  · obtain ⟨out_same, notes_same⟩ := twins
    subst here
    exact ⟨rfl, .mk { s with depth := s.depth + 1 } out_same notes_same⟩
  · obtain ⟨out_same, notes_same⟩ := inside
    exact ⟨congrArg (fun place : Place => { place with depth := place.depth - 1 }) there,
      .mk { s' with depth := s'.depth - 1 } out_same notes_same⟩

theorem inlined (step : Follows place.inlined p f g) :
    Follows place p (Walk.inlined f) (Walk.inlined g) := by
  refine within (fun s t here twins => ?_) (fun s t s' t' here twins there inside => ?_) step
  · obtain ⟨out_same, notes_same⟩ := twins
    subst here
    exact ⟨rfl, .mk { s with inline := true } out_same notes_same⟩
  · obtain ⟨out_same, notes_same⟩ := inside
    cases twins
    subst here
    exact ⟨congrArg (fun place : Place => { place with inline := s.inline }) there,
      .mk { s' with inline := s.inline } out_same notes_same⟩

theorem blocked {flavor : Flavor} (step : Follows place.blocked p f g) :
    Follows place p (Walk.blocked flavor f) (Walk.blocked flavor g) := by
  have set {s t : State} (twins : Twins s t) (blockDepth : Nat) :
      Twins { s with blockDepth } { t with blockDepth } := by
    obtain ⟨out_same, notes_same⟩ := twins
    exact .mk { s with blockDepth } out_same notes_same
  refine within (fun s t here twins => ?_) (fun s t s' t' here twins there inside => ?_) step
  · have closed := place_of_bearing (@bearing_closeParagraph flavor s)
    have depth_eq : t.depth = s.depth := by
      cases twins
      rfl
    subst here
    rw [depth_eq]
    exact ⟨congrArg (fun place : Place => { place with blockDepth := s.depth + 1 }) closed,
      set twins.closeParagraph (s.depth + 1)⟩
  · have closed := place_of_bearing (@bearing_closeParagraph flavor s')
    have blockDepth_eq : t.blockDepth = s.blockDepth := by
      cases twins
      rfl
    subst here
    rw [blockDepth_eq]
    exact ⟨congrArg (fun place : Place => { place with blockDepth := s.blockDepth })
      (closed.trans there), set inside.closeParagraph s.blockDepth⟩

theorem listed (kind : ListKind) (step : Follows place p f g) :
    Follows place p
      (Walk.within (fun s => { s with lists := kind :: s.lists })
        (fun _ t => { t with lists := t.lists.tail }) f)
      (Walk.within (fun s => { s with lists := kind :: s.lists })
        (fun _ t => { t with lists := t.lists.tail }) g) := by
  refine within (fun s t here twins => ?_) (fun s t s' t' here twins there inside => ?_) step
  · obtain ⟨out_same, notes_same⟩ := twins
    exact ⟨here, .mk { s with lists := kind :: s.lists } out_same notes_same⟩
  · obtain ⟨out_same, notes_same⟩ := inside
    exact ⟨there, .mk { s' with lists := s'.lists.tail } out_same notes_same⟩

theorem floated {flavor : Flavor} (class_ : String) (label : Option String) (step : Follows place p f g) :
    Follows place p
      (Walk.within (fun s => { s.write (flavor.blockOpen class_) with floatLabel := label })
        (fun s t => { t.write flavor.blockClose with floatLabel := s.floatLabel }) f)
      (Walk.within (fun s => { s.write (flavor.blockOpen class_) with floatLabel := label })
        (fun s t => { t.write flavor.blockClose with floatLabel := s.floatLabel }) g) := by
  refine within (fun s t here twins => ?_) (fun s t s' t' here twins there inside => ?_) step
  · obtain ⟨out_same, notes_same⟩ := twins
    exact ⟨here, .mk { s.write (flavor.blockOpen class_) with floatLabel := label }
      (out_same.append (.refl _)) notes_same⟩
  · obtain ⟨out_same, notes_same⟩ := inside
    cases twins
    exact ⟨there, .mk { s'.write flavor.blockClose with floatLabel := s.floatLabel }
      (out_same.append (.refl _)) notes_same⟩

theorem tabled (columns : Nat) (step : Follows place.tabled p f g) :
    Follows place p
      (Walk.within (·.startTable columns) (fun s t => t.finishTable s.table) f)
      (Walk.within (·.startTable columns) (fun s t => t.finishTable s.table) g) := by
  refine within (fun s t here twins => ?_) (fun s t s' t' here twins there inside => ?_) step
  · obtain ⟨out_same, notes_same⟩ := twins
    subst here
    exact ⟨rfl, .mk (s.startTable columns) (out_same.append (.refl _)) notes_same⟩
  · have finished := place_of_bearing (s := { s' with table := s.table }) (bearing_finishTable s.table s')
    have same : t.table = s.table := by
      cases twins
      rfl
    rw [same]
    refine ⟨finished.trans ?_, inside.finishTable s.table⟩
    subst here
    exact congrArg (fun place : Place => { place with inTable := s.table.isSome }) there

/-- Both walks write their texts on their own, and only these differ. -/
theorem asText {f g : Walk Unit} (step : Follows .text Unrelated f g) :
    Follows place SameLines (Walk.asText ctx f) (Walk.asText ctx g) := by
  intro s t here twins text s'' ran
  rw [Walk.asText] at ran ⊢
  cases walked : f (s.child ctx) with
  | mk result s' =>
    rw [walked] at ran
    cases result with
    | error e => cases ran
    | ok a =>
      cases ran
      obtain ⟨-, b, t', walked', -, inside⟩ := step _ _ rfl twins.child a s' walked
      rw [walked']
      refine ⟨here, t'.out, t.merge t', rfl, ?_, twins.merge inside⟩
      cases inside
      assumption

end Follows

end Quire.Walk
