import Quire.Prose

/-! Whether a text is running text is the same question for every target. The targets write
different texts for what they read, but they read alike, and they have the same complaint. -/
namespace Quire

inductive Answers {ε α β : Type} (p : α → β → Prop) : Except ε α → Except ε β → Prop
  | ok {a : α} {b : β} (related : p a b) : Answers p (.ok a) (.ok b)
  | error (fault : ε) : Answers p (.error fault) (.error fault)

def Unrelated {α β : Type} (_ : α) (_ : β) : Prop := True

namespace Answers

variable {ε α β γ δ : Type} {p : α → β → Prop} {q : γ → δ → Prop}
  {x : Except ε α} {y : Except ε β}

theorem refl (x : Except ε α) : Answers Eq x x := by
  cases x with
  | ok a => exact .ok rfl
  | error fault => exact .error fault

theorem imp {r : α → β → Prop} (answers : Answers p x y) (weaker : ∀ a b, p a b → r a b) :
    Answers r x y := by
  cases answers with
  | ok related => exact .ok (weaker _ _ related)
  | error fault => exact .error fault

theorem bind {f : α → Except ε γ} {g : β → Except ε δ} (first : Answers p x y)
    (second : ∀ a b, p a b → Answers q (f a) (g b)) : Answers q (x >>= f) (y >>= g) := by
  cases first with
  | ok related => exact second _ _ related
  | error fault => exact .error fault

theorem map {f : α → γ} {g : β → δ} (first : Answers p x y)
    (related : ∀ a b, p a b → q (f a) (g b)) : Answers q (f <$> x) (g <$> y) := by
  cases first with
  | ok same => exact .ok (related _ _ same)
  | error fault => exact .error fault

theorem map_eq {f : α → γ} {g : β → γ} (answers : Answers p x y)
    (same : ∀ a b, p a b → f a = g b) : x.map f = y.map g := by
  cases answers with
  | ok related => exact congrArg Except.ok (same _ _ related)
  | error fault => rfl

theorem mapM {ι : Type} {f : ι → Except ε γ} {g : ι → Except ε δ} (items : List ι)
    (each : ∀ item, Answers Unrelated (f item) (g item)) :
    Answers Unrelated (items.mapM f) (items.mapM g) := by
  induction items with
  | nil => exact .ok trivial
  | cons item items ih =>
    rw [List.mapM_cons, List.mapM_cons]
    refine .bind (each item) fun a b _ => .bind ih fun _ _ _ => ?_
    exact .ok trivial

end Answers

namespace Prose

/-- Two actions that read the same characters, whatever they write for them. -/
inductive Action.Alike : Action → Action → Prop
  | put (a b : List Char) (used : Nat) : Alike (.put a used) (.put b used)
  | same (act : Action) : Alike act act

theorem Action.Alike.symm {a b : Action} (alike : a.Alike b) : b.Alike a := by
  cases alike with
  | put a b used => exact .put b a used
  | same => exact .same _

theorem used_math? (t u : Target) (c : Char) (cs : List Char) :
    (math? t c cs).map (·.2) = (math? u c cs).map (·.2) := by
  unfold math?
  split <;> simp [Option.map_map, Function.comp_def]

theorem used_of_entry (t : Target) (c : Char) (cs : List Char) :
    ( entry? t c cs).map (·.2) =
      (((table t).map (·.1)).find? fun written => written.toList.isPrefixOf (c :: cs)).map
        fun written => written.length - 1 := by
  unfold entry?
  rw [List.find?_map, Option.map_map, Option.map_map]
  rfl

/-- The pages of HTML read two more characters as escapes, each of them alone. -/
theorem written_html : (table .html).map (·.1) = (table .quarto).map (·.1) ++ ["<", ">"] := by
  decide

theorem used_of_entry_html (c : Char) (cs : List Char) :
    ( entry? .html c cs).map (·.2) = ( entry? .quarto c cs).map (·.2) ∨
      c ≠ '\\' ∧ entry? .quarto c cs = none ∧ ( entry? .html c cs).map (·.2) = some 0 := by
  have html := used_of_entry .html c cs
  have quarto := used_of_entry .quarto c cs
  rw [written_html, List.find?_append] at html
  cases found : ((table .quarto).map (·.1)).find? fun written =>
      written.toList.isPrefixOf (c :: cs) with
  | some written =>
    rw [found] at html quarto
    left
    rw [html, quarto]
    rfl
  | none =>
    rw [found] at html quarto
    have none_ : entry? .quarto c cs = none := by simpa using quarto
    by_cases less : c = '<'
    · subst less
      exact .inr ⟨by decide, none_, by rw [html]; rfl⟩
    by_cases greater : c = '>'
    · subst greater
      exact .inr ⟨by decide, none_, by rw [html]; rfl⟩
    · left
      rw [html, none_]
      simp [Ne.symm less, Ne.symm greater]

theorem some_or_none_of_used {x y : Option (List Char × Nat)} (same : x.map (·.2) = y.map (·.2)) :
    (∃ a b used, x = some (a, used) ∧ y = some (b, used)) ∨ x = none ∧ y = none := by
  cases x with
  | none =>
    cases y with
    | none => exact .inr ⟨rfl, rfl⟩
    | some => cases same
  | some x =>
    cases y with
    | none => cases same
    | some y =>
      obtain ⟨a, used⟩ := x
      obtain ⟨b, used'⟩ := y
      obtain rfl : used = used' := Option.some.inj same
      exact .inl ⟨a, b, used, rfl, rfl⟩

theorem alike_action_html_quarto (c : Char) (cs : List Char) :
    (action .html c cs).Alike (action .quarto c cs) := by
  unfold action
  split
  · exact .same _
  rcases some_or_none_of_used (used_math? .html .quarto c cs) with
    ⟨a, b, used, html, quarto⟩ | ⟨html, quarto⟩ <;> rw [html, quarto]
  · exact .put a b used
  dsimp only
  split
  · exact .same _
  rcases used_of_entry_html c cs with same | ⟨plain, none_, single⟩
  · rcases some_or_none_of_used same with ⟨a, b, used, html, quarto⟩ | ⟨html, quarto⟩ <;>
      rw [html, quarto]
    · exact .put a b used
    · exact .same _
  · obtain ⟨⟨text, used⟩, found, rfl⟩ := Option.map_eq_some_iff.mp single
    rw [none_, found, if_neg plain]
    exact .put text [c] 0

theorem alike_action (t u : Target) (c : Char) (cs : List Char) :
    (action t c cs).Alike (action u c cs) := by
  cases t <;> cases u
  · exact .same _
  · exact alike_action_html_quarto c cs
  · exact (alike_action_html_quarto c cs).symm
  · exact .same _

theorem answers_convert (t u : Target) (cs : List Char) :
    Answers Unrelated (convert t cs) (convert u cs) := by
  fun_induction convert t cs with
  | case1 =>
    rw [convert]
    exact .ok trivial
  | case2 c cs text used acts ih =>
    have alike := alike_action t u c cs
    rw [convert]
    rw [acts] at alike
    generalize action u c cs = act at alike ⊢
    cases alike with
    | put | same => exact ih.map fun _ _ _ => trivial
  | case3 c cs wrap skip size acts inner ih =>
    have alike := alike_action t u c cs
    rw [convert]
    rw [acts] at alike
    generalize action u c cs = act at alike ⊢
    cases alike
    exact inner.bind fun _ _ _ => ih.bind fun _ _ _ => .ok trivial
  | case4 c cs acts =>
    have alike := alike_action t u c cs
    rw [convert]
    rw [acts] at alike
    generalize action u c cs = act at alike ⊢
    cases alike
    exact .error _

theorem answers_normalize (t u : Target) (raw : String) :
    Answers Unrelated (normalize t raw) (normalize u raw) :=
  (answers_convert t u raw.toList).map fun _ _ _ => trivial

end Prose
end Quire
