import Quire.Proofs.Walk.Course

/-! What a node sees of the nodes behind it. Text goes on with the text behind it, headings and
captions look for a label, and `color` takes everything; the others see nothing of what follows.
Main statement: `neighbours_append`, a walk up to a command or an environment that neither is a
label nor stands behind a color is a walk of its own. -/
namespace Quire.Walk

variable {ctx : Context} {node stop : Node} {front rest rest' : List Node} {role : Role}

theorem bind_bind {α β γ : Type} (step : Walk α) (next : α → Walk β) (last : β → Walk γ) :
    bind_ (bind_ step next) last = bind_ step fun a => bind_ (next a) last := by
  funext s
  unfold bind_
  cases step s with
  | mk result t => cases result <;> rfl

theorem headingNumber_congr (ctx : Context) (level : Level)
    (label : labelBehind? rest = labelBehind? rest') :
    headingNumber ctx level rest = headingNumber ctx level rest' := by
  funext s
  simp only [headingNumber, label]

/-- A node does the same in front of other nodes, if it sees the same text and label in them. -/
theorem meet_congr (other : roleOf? node ≠ some .color) (text : textAhead rest = textAhead rest')
    (label : labelBehind? rest = labelBehind? rest') :
    meet ctx node rest = meet ctx node rest' := by
  cases node with
  | text content => simp only [meet, visit, text]
  | math | group => rfl
  | command | environment =>
    simp only [meet, visit]
    generalize role_eq : Role.ofName _ = role
    have colorless : role ≠ .color := fun color => other (congrArg some (role_eq.trans color))
    cases role
    case color => exact absurd rfl colorless
    case heading level =>
      simp only [perform, heading, headingNumber_congr ctx level label, argument, below]
    case caption => simp only [perform, caption, label, argument, below]
    all_goals rfl

section Stop

theorem element_of_role (stops : roleOf? stop = some role) :
    (∃ name args, stop = .command name args) ∨
      ∃ name args children, stop = .environment name args children := by
  cases stop with
  | command name args => exact .inl ⟨name, args, rfl⟩
  | environment name args children => exact .inr ⟨name, args, children, rfl⟩
  | text | math | group => cases stops

/-- Text does not go on with a command or an environment. -/
theorem textAhead_append (stops : roleOf? stop = some role) :
    textAhead (front ++ stop :: rest) = textAhead front := by
  have ends : stop.isText = false := by
    obtain ⟨_, _, rfl⟩ | ⟨_, _, _, rfl⟩ := element_of_role stops <;> rfl
  induction front with
  | nil => simp [textAhead, ends]
  | cons node front ih =>
    cases node with
    | text content => simpa [textAhead, Node.isText, Node.sourceOf] using ih
    | command | environment | math | group => rfl

theorem labelBehind?_append (stops : roleOf? stop = some role) (shown : role ≠ .ignored) :
    labelBehind? (front ++ stop :: rest) = labelBehind? front := by
  have unnamed : stop.name ≠ "label" := by
    intro named
    refine shown (Option.some.inj (stops.symm.trans ?_))
    obtain ⟨_, _, rfl⟩ | ⟨_, _, _, rfl⟩ := element_of_role stops <;> cases named <;> rfl
  have seen : stop.isBlankOrComment = false := by
    obtain ⟨_, _, rfl⟩ | ⟨_, _, _, rfl⟩ := element_of_role stops <;> rfl
  unfold labelBehind?
  rw [List.find?_append, List.find?_cons_of_pos (by simp [seen])]
  cases front.find? (!·.isBlankOrComment) with
  | none => exact if_neg unnamed
  | some node => rfl

theorem dropSpaces_append (stops : roleOf? stop = some role) :
    dropSpaces (front ++ stop :: rest) = dropSpaces front ++ stop :: rest := by
  cases front with
  | nil => obtain ⟨_, _, rfl⟩ | ⟨_, _, _, rfl⟩ := element_of_role stops <;> rfl
  | cons node front =>
    cases node with
    | text content =>
      simp only [List.cons_append, dropSpaces]
      split <;> rfl
    | command | environment | math | group => rfl

theorem dropColumns_append (stops : roleOf? stop = some role) :
    dropColumns (front ++ stop :: rest) = dropColumns front ++ stop :: rest := by
  have trimmed : dropTrim (front ++ stop :: rest) = dropTrim front ++ stop :: rest := by
    cases front with
    | nil => obtain ⟨_, _, rfl⟩ | ⟨_, _, _, rfl⟩ := element_of_role stops <;> rfl
    | cons node front => cases node <;> rfl
  have seen : stop.isBlank = false := by
    obtain ⟨_, _, rfl⟩ | ⟨_, _, _, rfl⟩ := element_of_role stops <;> rfl
  unfold dropColumns
  rw [trimmed, List.dropWhile_append]
  cases (dropTrim front).dropWhile (·.isBlank) with
  | nil =>
    rw [List.isEmpty_nil, if_pos rfl, List.dropWhile_cons_of_neg (by simp [seen])]
    obtain ⟨_, _, rfl⟩ | ⟨_, _, _, rfl⟩ := element_of_role stops <;> rfl
  | cons node more => cases node <;> rfl

theorem remaining_append (stops : roleOf? stop = some role) (other : roleOf? node ≠ some .color) :
    remaining node (front ++ stop :: rest) = remaining node front ++ stop :: rest := by
  have ends : stop.isText = false := by
    obtain ⟨_, _, rfl⟩ | ⟨_, _, _, rfl⟩ := element_of_role stops <;> rfl
  unfold remaining
  split
  · rw [List.dropWhile_append]
    split
    next all =>
      rw [List.isEmpty_iff.mp all, List.dropWhile_cons_of_neg (by simp [ends])]
      rfl
    · rfl
  split
  · exact dropSpaces_append stops
  · exact dropColumns_append stops
  · exact (List.append_assoc _ _ _).symm
  next color => exact absurd color other
  · rfl

end Stop

/-- Nodes among which a walk meets no color. -/
inductive Uncolored : List Node → Prop
  | nil : Uncolored []
  | cons {node : Node} {rest : List Node} (other : roleOf? node ≠ some .color)
      (more : Uncolored (remaining node rest)) : Uncolored (node :: rest)

/-- Up to a command or an environment that is no label a walk does not see what comes then. -/
theorem neighbours_append (uncolored : Uncolored front) (stops : roleOf? stop = some role)
    (shown : role ≠ .ignored) :
    neighbours ctx (front ++ stop :: rest) =
      bind_ (neighbours ctx front) fun _ => neighbours ctx (stop :: rest) := by
  induction uncolored with
  | nil => rw [neighbours_nil, List.nil_append]; rfl
  | @cons node front other _ ih =>
    rw [List.cons_append, neighbours_cons_meet, neighbours_cons_meet, bind_bind,
      remaining_append stops other, ih,
      meet_congr other (textAhead_append stops) (labelBehind?_append stops shown)]

end Quire.Walk
