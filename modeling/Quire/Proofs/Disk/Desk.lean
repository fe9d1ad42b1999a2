import Mathlib.Data.List.Basic
import Quire.Disk.Desk

/-! What two jobs see of the files. Two jobs that find the same trees do the same, up to the access
that finds different ones. -/
namespace Quire.Desk

/-- Two desks that have seen the same in at most `n` accesses, and find the same up to there. -/
structure InStep (n : Nat) (a b : Desk) : Prop where
  disk_eq : a.disk = b.disk
  visits_eq : a.visits = b.visits
  few : a.visits.length ≤ n
  found_eq : a.found.take (n - a.visits.length) = b.found.take (n - a.visits.length)

/-- Two desks that have seen the same in the first `n` accesses, and more after them. -/
structure Parted (n : Nat) (a b : Desk) : Prop where
  many : n < a.visits.length
  many' : n < b.visits.length
  visits_eq : a.visits.take n = b.visits.take n

inductive Runs (p : Disk → Disk → Prop) : Desk → Desk → Prop
  | refl (desk : Desk) : Runs p desk desk
  | access {a b : Desk} {after : Disk} (runs : Runs p a b) (holds : p b.next after) :
      Runs p a (b.proceed after)

/-- Two jobs that both have more than `n` accesses, or that both end before with the same result. -/
def Together {α : Type} (n : Nat) (x y : α × Desk) : Prop :=
  (n < x.2.visits.length ∧ n < y.2.visits.length) ∨
    (x.1 = y.1 ∧ x.2.visits.length ≤ n ∧ y.2.visits.length ≤ n)

variable {n : Nat} {a b c : Desk} {p q : Disk → Disk → Prop}

@[simp] theorem length_proceed (desk : Desk) (after : Disk) :
    (desk.proceed after).visits.length = desk.visits.length + 1 := by
  rw [proceed, List.length_append, List.length_singleton]

@[simp] theorem disk_proceed (desk : Desk) (after : Disk) : (desk.proceed after).disk = after := rfl

namespace Runs

theorem trans (first : Runs p a b) (second : Runs p b c) : Runs p a c := by
  induction second with
  | refl => exact first
  | access _ holds ih => exact ih.access holds

theorem weaken (runs : Runs p a b) (weaker : ∀ x y, p x y → q x y) : Runs q a b := by
  induction runs with
  | refl => exact .refl _
  | access _ holds ih => exact ih.access (weaker _ _ holds)

theorem visits_prefix (runs : Runs p a b) : a.visits <+: b.visits := by
  induction runs with
  | refl => exact List.prefix_rfl
  | access _ _ ih => exact ih.trans (List.prefix_append _ _)

/-- Each access beyond those of the first desk has the property. -/
theorem holds (runs : Runs p a b) {i : Nat} {before after : Disk} (new : a.visits.length ≤ i)
    (visit : b.visits[i]? = some (before, after)) : p before after := by
  induction runs with
  | refl => rw [List.getElem?_eq_none new] at visit; cases visit
  | @access b after' _ holds ih =>
    obtain inside | last := Nat.lt_or_ge i b.visits.length
    · exact ih (by rwa [proceed, List.getElem?_append_left inside] at visit)
    · obtain ⟨-, eq⟩ : i - b.visits.length = 0 ∧ (b.next, after') = (before, after) := by
        rw [proceed, List.getElem?_append_right last] at visit
        simpa [List.getElem?_singleton] using visit
      obtain ⟨rfl, rfl⟩ := Prod.mk.inj eq
      exact holds

/-- The trees before the accesses are those that the first desk finds, as far as these reach. -/
theorem found_prefix (runs : Runs p a b) :
    a.visits.map (·.1) ++ a.found <+: b.visits.map (·.1) ++ b.found := by
  induction runs with
  | refl => exact List.prefix_rfl
  | @access b after _ _ ih =>
    refine ih.trans ?_
    cases found : b.found with
    | nil => simp [proceed, found]
    | cons first found' => simp [proceed, next, found]

section Fresh
variable {found : List Disk} {disk before after : Disk}

/-- The access that finds the last tree of a desk. -/
theorem before_eq (runs : Runs p a b) (fresh : a.visits = []) (finds : a.found = found ++ [disk])
    (visit : b.visits[found.length]? = some (before, after)) : before = disk := by
  have starts := runs.found_prefix
  rw [fresh, finds, List.map_nil, List.nil_append] at starts
  have same := List.prefix_iff_getElem?.mp starts found.length (by simp)
  rw [List.getElem_concat_length rfl] at same
  have inside : found.length < (b.visits.map (·.1)).length := by
    rw [List.length_map]
    exact (List.getElem?_eq_some_iff.mp visit).1
  rw [List.getElem?_append_left inside, List.getElem?_map, visit] at same
  exact Option.some.inj same

/-- The last access leaves the tree that is there behind it. -/
theorem disk_eq (runs : Runs p a b) (fresh : a.visits = []) {i : Nat}
    (visit : b.visits[i]? = some (before, after)) (last : b.visits.length = i + 1) :
    b.disk = after := by
  cases runs with
  | refl => simp [fresh] at last
  | @access b after' _ _ =>
    obtain rfl : b.visits.length = i := by simpa [proceed] using last
    rw [proceed, List.getElem?_concat_length] at visit
    exact (Prod.mk.inj (Option.some.inj visit)).2

/-- Behind the trees that a desk finds nobody else is at work, and each access leads on from the one
before it. -/
theorem reach (refl : ∀ x, p x x) (trans : ∀ x y z, p x y → p y z → p x z) (runs : Runs p a b)
    (fresh : a.visits = []) (finds : a.found = found ++ [disk]) :
    b.found = (found ++ [disk]).drop b.visits.length ∧
      (found.length ≤ b.visits.length → p disk b.next) := by
  induction runs with
  | refl =>
    refine ⟨by rw [finds, fresh]; rfl, fun late => ?_⟩
    obtain rfl : found = [] := by simpa [fresh] using late
    rw [next, finds]
    exact refl disk
  | @access b after _ holds ih =>
    obtain ⟨left, reached⟩ := ih
    have drops : (b.proceed after).found =
        (found ++ [disk]).drop (b.proceed after).visits.length := by
      simp [proceed, left, List.tail_drop]
    refine ⟨drops, fun late => ?_⟩
    rw [length_proceed] at late
    obtain first | later := Nat.eq_or_lt_of_le late
    · rw [next, drops, length_proceed, ← first, List.drop_left]
      exact refl disk
    · have none : (b.proceed after).found = [] := by
        rw [drops, List.drop_eq_nil_iff, List.length_append, length_proceed]
        exact later
      rw [next, none]
      exact trans _ _ _ (reached (by omega)) holds

end Fresh

end Runs

theorem Parted.runs {a' b' : Desk} (parted : Parted n a b) (left : Runs p a a')
    (right : Runs q b b') : Parted n a' b' := by
  obtain ⟨many, many', visits_eq⟩ := parted
  obtain ⟨more, eq⟩ := left.visits_prefix
  obtain ⟨more', eq'⟩ := right.visits_prefix
  refine ⟨?_, ?_, ?_⟩
  · rw [← eq, List.length_append]
    omega
  · rw [← eq', List.length_append]
    omega
  · rw [← eq, ← eq', List.take_append_of_le_length (by omega),
      List.take_append_of_le_length (by omega), visits_eq]

namespace InStep

theorem refl (few : a.visits.length ≤ n) : InStep n a a := ⟨rfl, rfl, few, rfl⟩

theorem next_eq (inStep : InStep n a b) (more : a.visits.length < n) : a.next = b.next := by
  obtain ⟨disk_eq, -, -, found_eq⟩ := inStep
  obtain ⟨k, eq⟩ : ∃ k, n - a.visits.length = k + 1 := ⟨n - a.visits.length - 1, by omega⟩
  rw [eq] at found_eq
  rw [next, next, disk_eq]
  cases left : a.found <;> cases right : b.found <;> simp_all

/-- An access finds the same on both desks, or it is the one that parts them. -/
theorem visit {α : Type} (inStep : InStep n a b) (job : Disk → α × Disk) :
    (a.visit job).2.Parted n (b.visit job).2 ∨
      (a.visit job).1 = (b.visit job).1 ∧ (a.visit job).2.InStep n (b.visit job).2 := by
  have same := inStep.visits_eq
  by_cases more : a.visits.length < n
  · refine .inr ?_
    have next_eq := inStep.next_eq more
    obtain ⟨k, eq⟩ : ∃ k, n - a.visits.length = k + 1 := ⟨n - a.visits.length - 1, by omega⟩
    have tails : a.found.tail.take k = b.found.tail.take k := by
      have found_eq := congrArg List.tail inStep.found_eq
      rw [eq] at found_eq
      cases left : a.found <;> cases right : b.found <;> simp_all
    have left : n - (a.visits.length + 1) = k := by omega
    simp only [Desk.visit, proceed, next_eq, same]
    refine ⟨trivial, rfl, rfl, ?_, ?_⟩
    · simpa [← same] using Nat.succ_le_of_lt more
    · simpa [← same, left] using tails
  · refine .inl ⟨?_, ?_, ?_⟩
    · simpa [Desk.visit, proceed] using by omega
    · simpa [Desk.visit, proceed, ← same] using by omega
    · have all : a.visits.length = n := by have := inStep.few; omega
      simp only [Desk.visit, proceed, ← same]
      rw [List.take_append_of_le_length (by omega), List.take_append_of_le_length (by omega)]

end InStep

end Quire.Desk
