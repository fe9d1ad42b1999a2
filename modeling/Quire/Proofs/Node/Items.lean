import Quire.Node.Build

/-! How the children of a list are grouped. Each `\item` takes what stands between it and the next
one, and of all children only the blanks in front of the first `\item` are lost. Main statement:
`ungrouped_groupItems`. -/
namespace Quire.Node

def startsItem : Node → Bool
  | command name _ => name == itemName
  | _ => false

def isItem : Node → Bool
  | environment name _ _ => name == itemName
  | _ => false

/-- The neighbours that a child of a grouped list was made of. -/
def ungrouped : Node → List Node
  | environment name args children =>
    if name = itemName then command itemName args :: children
    else [environment name args children]
  | node => [node]

theorem ungrouped_item (args : List Arg) (children : List Node) :
    ungrouped (environment itemName args children) = command itemName args :: children := by
  simp [ungrouped]

theorem ungrouped_other {node : Node} (other : node.isItem = false) : ungrouped node = [node] := by
  cases node with
  | environment name args children =>
    have apart : name ≠ itemName := by simpa [isItem] using other
    simp [ungrouped, apart]
  | text | command | group | math => rfl

theorem flatMap_ungrouped_others {nodes : List Node}
    (others : ∀ node ∈ nodes, node.isItem = false) : nodes.flatMap ungrouped = nodes := by
  induction nodes with
  | nil => rfl
  | cons node rest ih =>
    have behind := ih fun node member => others node (List.mem_cons_of_mem _ member)
    rw [List.flatMap_cons, ungrouped_other (others node (by simp)), behind]
    rfl

section Split
variable {node : Node} {rest : List Node} {args : List Arg}

theorem splitItems_start :
    splitItems (command itemName args :: rest) =
      ([], environment itemName args (splitItems rest).1 :: (splitItems rest).2) := by
  simp [splitItems]

theorem splitItems_other (other : node.startsItem = false) :
    splitItems (node :: rest) = (node :: (splitItems rest).1, (splitItems rest).2) := by
  cases node with
  | command name args =>
    have apart : name ≠ itemName := by simpa [startsItem] using other
    simp [splitItems, apart]
  | text | environment | group | math => rfl

theorem eq_start (starts : node.startsItem = true) : ∃ args, node = command itemName args := by
  cases node with
  | command name args =>
    have same : name = itemName := by simpa [startsItem] using starts
    exact ⟨args, by rw [same]⟩
  | text | environment | group | math => cases starts

/-- What holds of no nodes, behind an `\item` and behind any other node holds of all lists. -/
theorem items_induction {p : List Node → Prop} (nil : p [])
    (start : ∀ args rest, p rest → p (command itemName args :: rest))
    (other : ∀ node rest, node.startsItem = false → p rest → p (node :: rest))
    (nodes : List Node) : p nodes := by
  induction nodes with
  | nil => exact nil
  | cons node rest ih =>
    cases starts : node.startsItem with
    | true =>
      obtain ⟨args, rfl⟩ := eq_start starts
      exact start args rest ih
    | false => exact other node rest starts ih

end Split

/-- In front of the items stands what stands in front of the first `\item`. -/
theorem lead_splitItems (nodes : List Node) :
    (splitItems nodes).1 = nodes.takeWhile (!·.startsItem) := by
  induction nodes using items_induction with
  | nil => rfl
  | start args rest ih => rw [splitItems_start]; rfl
  | other node rest other ih =>
    rw [splitItems_other other, List.takeWhile_cons_of_pos (by rw [other]; rfl), ih]

/-- The items hold all from the first `\item` on. -/
theorem ungrouped_splitItems (nodes : List Node) :
    (splitItems nodes).2.flatMap ungrouped = nodes.dropWhile (!·.startsItem) := by
  induction nodes using items_induction with
  | nil => rfl
  | start args rest ih =>
    rw [splitItems_start, List.flatMap_cons, ungrouped_item, ih, lead_splitItems,
      List.cons_append, List.takeWhile_append_dropWhile]
    rfl
  | other node rest other ih =>
    rw [splitItems_other other, List.dropWhile_cons_of_pos (by rw [other]; rfl), ih]

/-- One item for each `\item`, with its arguments. -/
theorem args_splitItems (nodes : List Node) :
    (splitItems nodes).2.map Node.args = (nodes.filter startsItem).map Node.args := by
  induction nodes using items_induction with
  | nil => rfl
  | start args rest ih =>
    rw [splitItems_start, List.map_cons, ih, List.filter_cons_of_pos rfl]
    rfl
  | other node rest other ih =>
    rw [splitItems_other other, ih, List.filter_cons_of_neg (by simp [other])]

theorem item_of_mem_splitItems {nodes : List Node} :
    ∀ item ∈ (splitItems nodes).2,
      item.isItem = true ∧ ∀ child ∈ item.children, child.startsItem = false := by
  induction nodes using items_induction with
  | nil => simp [splitItems]
  | start args rest ih =>
    intro item member
    rw [splitItems_start] at member
    rcases List.mem_cons.mp member with rfl | behind
    · refine ⟨rfl, fun child inside => ?_⟩
      have others := List.all_eq_true.mp (List.all_takeWhile (p := (!·.startsItem)) (l := rest))
      rw [children, lead_splitItems] at inside
      simpa using others child inside
    · exact ih item behind
  | other node rest other ih =>
    rw [splitItems_other other]
    exact ih

/-- With each item taken apart again, the children of a list are what they were, without the blanks
in front of the first `\item`. There is one item for each `\item`, in order and with its arguments,
and no item holds another `\item` among its children. -/
theorem ungrouped_groupItems {nodes : List Node}
    (others : ∀ node ∈ nodes, node.isItem = false) :
    (groupItems nodes).flatMap ungrouped =
        (nodes.takeWhile (!·.startsItem)).filter (!·.isBlank) ++ nodes.dropWhile (!·.startsItem) ∧
      ((groupItems nodes).filter isItem).map Node.args = (nodes.filter startsItem).map Node.args ∧
      ∀ item ∈ (groupItems nodes).filter isItem, ∀ child ∈ item.children,
        child.startsItem = false := by
  have grouped : groupItems nodes =
      (nodes.takeWhile (!·.startsItem)).filter (!·.isBlank) ++ (splitItems nodes).2 := by
    rw [groupItems, ← lead_splitItems]
  have lead : ∀ node ∈ (nodes.takeWhile (!·.startsItem)).filter (!·.isBlank),
      node.isItem = false := by
    intro node member
    exact others node (List.takeWhile_subset _ (List.mem_filter.mp member).1)
  have items : (groupItems nodes).filter isItem = (splitItems nodes).2 := by
    rw [grouped, List.filter_append, List.filter_eq_nil_iff.mpr fun node member => by
      simp [lead node member], List.nil_append, List.filter_eq_self]
    exact fun item member => (item_of_mem_splitItems item member).1
  refine ⟨?_, ?_, fun item member => ?_⟩
  · rw [grouped, List.flatMap_append, flatMap_ungrouped_others lead, ungrouped_splitItems]
  · rw [items, args_splitItems]
  · rw [items] at member
    exact (item_of_mem_splitItems item member).2

/-- A blank and a comment in front of two items, of which the first has an argument and holds a
list of its own. -/
theorem ungrouped_groupItems_of_nested :
    let inner := environment "enumerate" [] [environment itemName [] [text "b"]]
    let title := Arg.mk .optional [text "t"] "t"
    let nodes := [text "\n", text "% note\n", text "lead", command itemName [title], text " a", inner,
      text "\n", command itemName [], group [text "c"]]
    (∀ node ∈ nodes, node.isItem = false) ∧
      (groupItems nodes).flatMap ungrouped = nodes.tail ∧
      ((groupItems nodes).filter isItem).map Node.args = [[title], []] := by
  intro inner title nodes
  have others : ∀ node ∈ nodes, node.isItem = false := by
    simp [nodes, inner, isItem, itemName]
  obtain ⟨whole, args, -⟩ := ungrouped_groupItems others
  exact ⟨others, whole, args⟩

end Quire.Node
