import Quire.Proofs.Asset.Publishing
import Quire.Proofs.Disk.Desk
import Quire.Proofs.Table.Sheet
import Quire.Walk

/-! The course of a walk: every change that a walk can make to its state. A part of a walk stands
between two changes, of which the second puts back what the first one swapped. What holds of these
changes holds of every walk, and a walk makes them node after node. -/
namespace Quire.Walk

inductive Course (ctx : Context) : State → State → Prop
  | refl (s : State) : Course ctx s s
  | trans {s t u : State} (first : Course ctx s t) (second : Course ctx t u) : Course ctx s u
  | write (s : State) (text : String) : Course ctx s (s.write text)
  | openParagraph (s : State) : Course ctx s (s.openParagraph ctx.flavor)
  | closeParagraph (s : State) : Course ctx s (s.closeParagraph ctx.flavor)
  | lay (s : State) (op : Table.Operation) : Course ctx s (s.layTable (·.perform op))
  | record (s : State) (diagnostic : Diagnostic) : Course ctx s (s.record diagnostic)
  | count (s : State) (level : Level) : Course ctx s { s with counters := s.counters.bump level }
  | draw (s : State) : Course ctx s { s with drawings := s.drawings + 1 }
  | note (s : State) (body : String) :
      Course ctx s { s with footnotes := s.footnotes ++ [Text.trim body] }
  | mark (s : State) (body : String) : Course ctx s (s.mark ctx.flavor body)
  | files (s : State) (after : Disk)
      (published : Asset.Publishes ctx.assets s.desk.next after) :
      Course ctx s { s with desk := s.desk.proceed after }
  | deeper {s t : State} (inner : Course ctx { s with depth := s.depth + 1 } t) :
      Course ctx s { t with depth := t.depth - 1 }
  | inlined {s t : State} (inner : Course ctx { s with inline := true } t) :
      Course ctx s { t with inline := s.inline }
  | blocked {s t : State}
      (inner : Course ctx { s.closeParagraph ctx.flavor with blockDepth := s.depth + 1 } t) :
      Course ctx s { t.closeParagraph ctx.flavor with blockDepth := s.blockDepth }
  | listed {s t : State} (kind : ListKind)
      (inner : Course ctx { s with lists := kind :: s.lists } t) :
      Course ctx s { t with lists := t.lists.tail }
  | floated {s t : State} (class_ : String) (label : Option String)
      (inner : Course ctx { s.write (ctx.flavor.blockOpen class_) with floatLabel := label } t) :
      Course ctx s { t.write ctx.flavor.blockClose with floatLabel := s.floatLabel }
  | tabled {s t : State} (columns : Nat) (inner : Course ctx (s.startTable columns) t) :
      Course ctx s (t.finishTable s.table)
  /-- The text of an inner walk is taken. -/
  | merged {s t : State} (inner : Course ctx (s.child ctx) t) : Course ctx s (s.merge t)
  /-- An inner walk failed. -/
  | dropped {s t : State} (inner : Course ctx (s.child ctx) t) :
      Course ctx s { s with desk := t.desk }

section Desk
variable {flavor : Flavor}

theorem desk_layTable (act : Table.Layout → String × Table.Layout) (s : State) :
    (s.layTable act).desk = s.desk := by
  unfold State.layTable
  split <;> rfl

theorem desk_openParagraph (s : State) : (s.openParagraph flavor).desk = s.desk := by
  unfold State.openParagraph
  split
  · exact desk_layTable _ s
  · split <;> rfl

theorem desk_closeParagraph (s : State) : (s.closeParagraph flavor).desk = s.desk := by
  unfold State.closeParagraph
  split <;> rfl

theorem desk_finishTable (outer : Option Table.Layout) (s : State) :
    (s.finishTable outer).desk = s.desk := by
  unfold State.finishTable
  split <;> rfl

end Desk

/-- A walk publishes images each time that it goes to the files. -/
theorem Course.runs {ctx : Context} {s t : State} (course : Course ctx s t) :
    s.desk.Runs (Asset.Publishes ctx.assets) t.desk := by
  induction course with
  | refl | write | record | count | draw | note | mark => exact .refl _
  | trans _ _ first second => exact first.trans second
  | openParagraph s => rw [desk_openParagraph]; exact .refl _
  | closeParagraph s => rw [desk_closeParagraph]; exact .refl _
  | lay s op => rw [desk_layTable]; exact .refl _
  | files s after published => exact .access (.refl _) published
  | deeper _ ih | inlined _ ih | listed _ _ ih | floated _ _ _ ih | merged _ ih
  | dropped _ ih => exact ih
  | @blocked s t _ ih =>
    have enter : (s.closeParagraph ctx.flavor).desk = s.desk := desk_closeParagraph s
    have leave : (t.closeParagraph ctx.flavor).desk = t.desk := desk_closeParagraph t
    simpa only [enter, leave] using ih
  | @tabled s t _ _ ih =>
    rw [desk_finishTable]
    exact ih

/-! The walk at one node. -/

variable {ctx : Context} {node : Node} {rest : List Node}

/-- How a walk goes on inside of a node. -/
def below (ctx : Context) (node : Node) (rest : List Node) : Inside node rest :=
  fun inner _ => nodes ctx inner

def meet (ctx : Context) (node : Node) (rest : List Node) : Walk Unit :=
  visit ctx node rest (below ctx node rest)

theorem neighbours_cons_meet (ctx : Context) (node : Node) (rest : List Node) :
    neighbours ctx (node :: rest) =
      bind_ (meet ctx node rest) fun _ => neighbours ctx (remaining node rest) :=
  neighbours_cons ctx node rest

theorem visit_of_role {role : Role} (role_eq : roleOf? node = some role)
    (inside : Inside node rest) :
    visit ctx node rest inside = perform ctx node rest inside role := by
  cases node with
  | text | math | group => cases role_eq
  | command | environment =>
    cases role_eq
    rfl

end Quire.Walk
