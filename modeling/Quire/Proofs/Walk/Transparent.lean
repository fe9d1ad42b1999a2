import Quire.Proofs.Walk.Ahead

/-! Transparent nodes. The children of a transparent environment go on with what stands around it,
with everything that a node looks ahead for. A command of the same name has no children, and its
arguments are not walked. -/
namespace Quire.Walk

def transparentNames : List String :=
  ["document", "center", "quote", "minipage", "small", "flushleft"]

theorem ofBase_transparent {name : String} (transparent : name ∈ transparentNames) :
    Role.ofBase name = .transparent := by
  have all : ∀ name ∈ transparentNames, Role.ofBase name = .transparent := by decide
  exact all name transparent

variable {ctx : Context} {node : Node} {rest : List Node}

/-- The children of a transparent node stand in its place. -/
theorem neighbours_cons_transparent (transparent : roleOf? node = some .transparent) :
    neighbours ctx (node :: rest) = neighbours ctx (node.children ++ rest) := by
  have leaves : remaining node rest = node.children ++ rest := by
    obtain ⟨_, _, rfl⟩ | ⟨_, _, _, rfl⟩ := element_of_role transparent <;>
      simp only [remaining, transparent]
  rw [neighbours_cons_meet, meet, visit_of_role transparent, leaves]
  rfl

/-- Wherever a walk comes to a transparent environment it goes on with the children and what stands
behind. From a command of the name it goes on with what stands behind alone. -/
theorem neighbours_transparent {name : String} (transparent : Role.base name ∈ transparentNames)
    {front : List Node} (uncolored : Uncolored front) (ctx : Context) (args : List Arg)
    (children rest : List Node) :
    neighbours ctx (front ++ .environment name args children :: rest) =
        (bind_ (neighbours ctx front) fun _ => neighbours ctx (children ++ rest)) ∧
      neighbours ctx (front ++ .command name args :: rest) =
        bind_ (neighbours ctx front) fun _ => neighbours ctx rest := by
  have environment : roleOf? (.environment name args children) = some .transparent :=
    congrArg some (ofBase_transparent transparent)
  have command : roleOf? (.command name args) = some .transparent :=
    congrArg some (ofBase_transparent transparent)
  rw [neighbours_append uncolored environment (by decide), neighbours_cons_transparent environment,
    neighbours_append uncolored command (by decide), neighbours_cons_transparent command]
  exact ⟨rfl, rfl⟩

/-- The text in a centered block goes on with the text behind the block. -/
theorem neighbours_transparent_of_center :
    let ctx : Context := ⟨.empty, .empty, [], "", ⟨"", "", 0, 0, .offline⟩, .html, 1⟩
    let front : List Node := [.command "emph" [.mk .required [.text "a"] "a"]]
    let center : Node := .environment "center" [] [.text " b--"]
    neighbours ctx (front ++ [center, .text "- c"]) =
        (bind_ (neighbours ctx front) fun _ => neighbours ctx [.text " b--", .text "- c"]) ∧
      (render ctx .empty (front ++ [center, .text "- c"])).1.toOption.map (·.body) =
        some "\n<p><em>a</em> b&mdash; c</p>\n" := by
  intro ctx front center
  have uncolored : Uncolored front := .cons (by decide) .nil
  exact ⟨(neighbours_transparent (by decide) uncolored ctx [] _ _).1, by decide +kernel⟩

/-- What stands in the argument of a transparent command is not shown. -/
theorem not_transparent_command :
    ¬ ∀ (ctx : Context) (contents rest : List Node) (raw : String) (s : State),
      neighbours ctx (.command "small" [.mk .required contents raw] :: rest) s =
        neighbours ctx (contents ++ rest) s := by
  intro transparent
  let ctx : Context := ⟨.empty, .empty, [], "", ⟨"", "", 0, 0, .offline⟩, .html, 1⟩
  have same := transparent ctx [.text "a"] [.text " b"] "a" (.start ctx .empty)
  exact absurd (congrArg (·.2.out) same) (by decide +kernel)

end Quire.Walk
