import Mathlib.Data.List.Induction
import Mathlib.Data.List.Sort
import Quire.Diagnostics

/-! What diagnostics hold of the records that were made. Names are kept as a set, labels in the
order in which they were first missed. Main statement: `merge_collect`, the diagnostics of two
sequences of records, merged, are those of the one behind the other. -/
namespace Quire

def Diagnostic.label? : Diagnostic → Option String
  | unresolved label => some label
  | unknownNode _ => none

namespace Diagnostics

def collect (records : List Diagnostic) : Diagnostics := records.foldl record empty

theorem collect_concat (records : List Diagnostic) (diagnostic : Diagnostic) :
    collect (records ++ [diagnostic]) = (collect records).record diagnostic := by
  rw [collect, collect, List.foldl_concat]

section Names

variable {name other : String} {names more : List String}

theorem mem_insertName : other ∈ insertName name names ↔ other = name ∨ other ∈ names := by
  induction names with
  | nil => rw [insertName, List.mem_singleton, List.mem_nil_iff, or_false]
  | cons first names ih =>
    rw [insertName]
    split
    · exact List.mem_cons
    split
    next same =>
      subst same
      exact ⟨.inr, fun member => member.elim (fun eq => eq ▸ List.mem_cons_self) id⟩
    · rw [List.mem_cons, ih, List.mem_cons]
      exact or_left_comm

theorem ascending_insertName (ascending : names.Pairwise (· < ·)) :
    (insertName name names).Pairwise (· < ·) := by
  induction ascending with
  | nil => exact List.pairwise_singleton _ name
  | @cons first names below ascending ih =>
    rw [insertName]
    split
    next less =>
      refine .cons (fun later member => ?_) (.cons below ascending)
      rcases List.mem_cons.mp member with rfl | member
      · exact less
      · exact String.lt_trans less (below later member)
    split
    · exact .cons below ascending
    next notLess differs =>
      refine .cons (fun later member => ?_) ih
      rcases mem_insertName.mp member with rfl | member
      · by_contra notAbove
        exact differs (String.le_antisymm (String.not_lt.mp notAbove) (String.not_lt.mp notLess))
      · exact below later member

theorem mem_foldl_insertName :
    other ∈ more.foldl (fun names name => insertName name names) names ↔
      other ∈ names ∨ other ∈ more := by
  induction more generalizing names with
  | nil => rw [List.foldl_nil, List.mem_nil_iff, or_false]
  | cons name more ih =>
    rw [List.foldl_cons, ih, mem_insertName, List.mem_cons, or_comm (a := other = name), or_assoc]

theorem ascending_foldl_insertName (ascending : names.Pairwise (· < ·)) :
    (more.foldl (fun names name => insertName name names) names).Pairwise (· < ·) := by
  induction more generalizing names with
  | nil => exact ascending
  | cons name more ih => exact ih (ascending_insertName ascending)

end Names

section Labels

variable {label : String} {labels more : List String}

theorem mem_addLabel {other : String} :
    other ∈ addLabel labels label ↔ other ∈ labels ∨ other = label := by
  unfold addLabel
  split
  next known =>
    have member : label ∈ labels := List.contains_iff_mem.mp known
    exact ⟨.inl, fun either => either.elim id fun eq => eq ▸ member⟩
  · rw [List.mem_append, List.mem_singleton]

theorem mem_foldl_addLabel {other : String} :
    other ∈ more.foldl addLabel labels ↔ other ∈ labels ∨ other ∈ more := by
  induction more generalizing labels with
  | nil => rw [List.foldl_nil, List.mem_nil_iff, or_false]
  | cons label more ih => rw [List.foldl_cons, ih, mem_addLabel, List.mem_cons, or_assoc]

theorem addLabel_of_mem (member : label ∈ labels) : addLabel labels label = labels :=
  if_pos (List.contains_iff_mem.mpr member)

theorem addLabel_of_not_mem (new : label ∉ labels) : addLabel labels label = labels ++ [label] :=
  if_neg fun known => new (List.contains_iff_mem.mp known)

/-- A label that is known stays known, and a new one comes last in both. -/
theorem foldl_addLabel_addLabel (front : List String) :
    (addLabel labels label).foldl addLabel front =
      addLabel (labels.foldl addLabel front) label := by
  by_cases known : label ∈ labels
  · rw [addLabel_of_mem known, addLabel_of_mem (mem_foldl_addLabel.mpr (.inr known))]
  · rw [addLabel_of_not_mem known, List.foldl_concat]

/-- Labels that were gathered on their own are added as if they had been missed just then. -/
theorem foldl_addLabel_foldl (front : List String) :
    (more.foldl addLabel labels).foldl addLabel front =
      more.foldl addLabel (labels.foldl addLabel front) := by
  induction more generalizing labels with
  | nil => rfl
  | cons label more ih => rw [List.foldl_cons, ih, foldl_addLabel_addLabel, List.foldl_cons]

theorem eraseDups_concat :
    (labels ++ [label]).eraseDups =
      if label ∈ labels then labels.eraseDups else labels.eraseDups ++ [label] := by
  rw [List.eraseDups_append]
  by_cases known : label ∈ labels <;> simp [List.removeAll, known, List.eraseDups_cons]

/-- The first of equal labels stays. -/
theorem foldl_addLabel_eq (labels : List String) : labels.foldl addLabel [] = labels.eraseDups := by
  induction labels using List.reverseRecOn with
  | nil => rfl
  | append_singleton labels label ih =>
    rw [List.foldl_concat, ih, eraseDups_concat]
    split
    next known => exact addLabel_of_mem (List.mem_eraseDups.mpr known)
    next new => exact addLabel_of_not_mem fun known => new (List.mem_eraseDups.mp known)

end Labels

/-! The diagnostics of a sequence of records. -/

variable {name : String} {records : List Diagnostic}

theorem unresolved_collect (records : List Diagnostic) :
    (collect records).unresolved = (records.filterMap Diagnostic.label?).foldl addLabel [] := by
  induction records using List.reverseRecOn with
  | nil => rfl
  | append_singleton records diagnostic ih =>
    rw [collect_concat, List.filterMap_append, List.foldl_append, ← ih]
    cases diagnostic <;> rfl

theorem mem_unknown_collect : name ∈ (collect records).unknown ↔ .unknownNode name ∈ records := by
  induction records using List.reverseRecOn with
  | nil => exact iff_of_false List.not_mem_nil List.not_mem_nil
  | append_singleton records diagnostic ih =>
    rw [collect_concat, List.mem_append, ← ih, List.mem_singleton]
    cases diagnostic with
    | unknownNode other => simp only [record, mem_insertName, Diagnostic.unknownNode.injEq, or_comm]
    | unresolved label => simp only [record, reduceCtorEq, or_false]

theorem ascending_unknown_collect (records : List Diagnostic) :
    (collect records).unknown.Pairwise (· < ·) := by
  induction records using List.reverseRecOn with
  | nil => exact .nil
  | append_singleton records diagnostic ih =>
    rw [collect_concat]
    cases diagnostic with
    | unknownNode name => exact ascending_insertName ih
    | unresolved label => exact ih

/-- Two sequences of records, merged, are as good as one. -/
theorem merge_collect (xs ys : List Diagnostic) :
    (collect xs).merge (collect ys) = collect (xs ++ ys) := by
  have unknown : ((collect xs).merge (collect ys)).unknown = (collect (xs ++ ys)).unknown := by
    refine List.Pairwise.eq_of_mem_iff (ascending_foldl_insertName (ascending_unknown_collect xs))
      (ascending_unknown_collect _) fun name => ?_
    rw [merge, mem_foldl_insertName, mem_unknown_collect, mem_unknown_collect, mem_unknown_collect,
      List.mem_append]
  have unresolved : ((collect xs).merge (collect ys)).unresolved =
      (collect (xs ++ ys)).unresolved := by
    rw [merge, unresolved_collect ys, foldl_addLabel_foldl, unresolved_collect xs,
      unresolved_collect (xs ++ ys), List.filterMap_append, List.foldl_append]
    rfl
  exact congrArg₂ mk unknown unresolved

/-- A label that both walks missed stays where it was first missed. -/
example :
    (collect [.unresolved "a", .unresolved "b"]).merge
      (collect [.unresolved "b", .unknownNode "x", .unresolved "c", .unresolved "a"]) =
        ⟨["x"], ["a", "b", "c"]⟩ := by decide

theorem foldl_merge_collect (xs : List Diagnostic) (parts : List (List Diagnostic)) :
    parts.foldl (fun report part => report.merge (collect part)) (collect xs) =
      collect (xs ++ parts.flatten) := by
  induction parts generalizing xs with
  | nil => rw [List.flatten_nil, List.append_nil, List.foldl_nil]
  | cons part parts ih =>
    rw [List.foldl_cons, merge_collect, ih, List.flatten_cons, List.append_assoc]

end Diagnostics
end Quire
