import Mathlib.Data.List.DropRight
import Quire.Text.Blank

/-! What trims leave of a text. -/
namespace Quire.Text

theorem dropEndWhile_append_stop {p : Char → Bool} {c : Char} (stop : p c = false)
    (cs ds : List Char) : dropEndWhile p (cs ++ c :: ds) = cs ++ c :: dropEndWhile p ds := by
  simp only [dropEndWhile, List.reverse_append, List.reverse_cons, List.append_assoc,
    List.dropWhile_append, List.dropWhile_cons, List.dropWhile_nil]
  split
  next empty => simp_all
  next => simp

/-- White space is all that is dropped at the end of a text. -/
theorem exists_gap (cs : List Char) :
    ∃ gap, gap.all isBlank = true ∧ cs = dropEndWhile isBlank cs ++ gap := by
  refine ⟨(cs.reverse.takeWhile isBlank).reverse, ?_, ?_⟩
  · rw [List.all_reverse]
    exact List.all_takeWhile
  · rw [dropEndWhile, ← List.reverse_append, List.takeWhile_append_dropWhile, List.reverse_reverse]

theorem toList_trimEnd (s : String) : (trimEnd s).toList = dropEndWhile isBlank s.toList := by
  rw [trimEnd, String.toList_ofList]

theorem trim_eq (s : String) : trim s = trimEnd (trimStart s) := by
  rw [trim, trimEnd, trimStart, dropFront, String.toList_ofList]

theorem trim_subset (s : String) : (trim s).toList ⊆ s.toList := by
  rw [trim, String.toList_ofList]
  exact List.Subset.trans (List.rdropWhile_prefix isBlank _).subset (List.dropWhile_suffix _).subset

theorem toList_trimEnd_prefix (s : String) : (trimEnd s).toList <+: s.toList := by
  rw [toList_trimEnd]
  exact List.rdropWhile_prefix isBlank _

theorem toList_prefix_append (s more : String) : s.toList <+: (s ++ more).toList := by
  rw [String.toList_append]
  exact List.prefix_append _ _

theorem trimEnd_eq_self {s : String} {c : Char} (last : s.toList.getLast? = some c)
    (stop : isBlank c = false) : trimEnd s = s := by
  obtain ⟨front, eq⟩ := List.getLast?_eq_some_iff.mp last
  have solid : dropEndWhile isBlank s.toList = s.toList := by
    rw [eq, dropEndWhile_append_stop stop]
    rfl
  rw [trimEnd, solid, String.ofList_toList]

/-- A text without white space at its end is still in front when the whole is trimmed. -/
theorem trimEnd_prefix_trimEnd {s t : String} (front : (trimEnd s).toList <+: t.toList) :
    (trimEnd s).toList <+: (trimEnd t).toList := by
  obtain ⟨more, eq⟩ := front
  have settled : dropEndWhile isBlank (dropEndWhile isBlank s.toList) =
      dropEndWhile isBlank s.toList := List.rdropWhile_idempotent isBlank _
  rw [toList_trimEnd] at eq
  rw [toList_trimEnd, toList_trimEnd, ← eq]
  by_cases blank : ∀ c ∈ more, isBlank c = true
  · have gone : dropEndWhile isBlank (dropEndWhile isBlank s.toList ++ more) =
        dropEndWhile isBlank (dropEndWhile isBlank s.toList) := by
      rw [dropEndWhile, List.reverse_append, List.dropWhile_append_of_pos (by simpa using blank)]
      rfl
    exact ⟨[], by rw [List.append_nil, gone, settled]⟩
  · obtain ⟨c, member, stop⟩ : ∃ c ∈ more, isBlank c = false := by simpa using blank
    obtain ⟨front, behind, rfl⟩ := List.append_of_mem member
    rw [← List.append_assoc, dropEndWhile_append_stop stop, List.append_assoc]
    exact List.prefix_append _ _

theorem not_mem_of_all {cs : List Char} {c : Char} (blank : cs.all isBlank = true)
    (solid : isBlank c = false) : c ∉ cs := by
  intro member
  rw [List.all_eq_true.mp blank c member] at solid
  cases solid

theorem dropWhile_eq_nil_of_all {cs : List Char} (blank : cs.all isBlank = true) :
    cs.dropWhile isBlank = [] := by
  rw [List.dropWhile_eq_nil_iff]
  exact List.all_eq_true.mp blank

theorem trim_of_allBlank {s : String} (blank : allBlank s = true) : trim s = "" := by
  rw [trim, dropWhile_eq_nil_of_all blank]
  rfl

theorem trim_of_solid {s : String} (solid : ∀ c ∈ s.toList, isBlank c = false) : trim s = s := by
  have kept {cs : List Char} (solid : ∀ c ∈ cs, isBlank c = false) : cs.dropWhile isBlank = cs := by
    cases cs with
    | nil => rfl
    | cons c cs => exact List.dropWhile_cons_of_neg (by simp [solid c])
  have back : ∀ c ∈ s.toList.reverse, isBlank c = false := fun c member =>
    solid c (List.mem_reverse.mp member)
  rw [trim, kept solid, dropEndWhile, kept back, List.reverse_reverse, String.ofList_toList]

theorem allBlank_append (s t : String) : allBlank (s ++ t) = (allBlank s && allBlank t) := by
  simp only [allBlank, String.toList_append, List.all_append]

/-- A trimmed text has no white space at its ends. -/
theorem ends_of_trim {s : String} (trimmed : trim s = s) (some_ : s ≠ "") :
    (∃ c ∈ s.toList.head?, isBlank c = false) ∧
      ∃ front c, s.toList = front ++ [c] ∧ isBlank c = false := by
  have chars_ne : s.toList ≠ [] := by simpa using some_
  have kept : (s.toList.dropWhile isBlank).rdropWhile isBlank = s.toList := by
    have chars := congrArg String.toList trimmed
    rwa [trim, String.toList_ofList] at chars
  have front : s.toList.dropWhile isBlank = s.toList := by
    have shorter := (List.rdropWhile_prefix isBlank (s.toList.dropWhile isBlank)).length_le
    rw [kept] at shorter
    have suffix := List.dropWhile_suffix isBlank (l := s.toList)
    exact suffix.eq_of_length (Nat.le_antisymm suffix.length_le shorter)
  rw [front] at kept
  constructor
  · have first := List.head?_dropWhile_not isBlank s.toList
    rw [front, List.head?_eq_some_head chars_ne] at first
    exact ⟨_, List.head?_eq_some_head chars_ne, first⟩
  · have last := List.rdropWhile_last_not isBlank s.toList (by rwa [kept])
    refine ⟨_, _, (List.dropLast_append_getLast chars_ne).symm, ?_⟩
    simpa [kept] using last

/-- White space that is put around a text is trimmed with its own. -/
theorem trim_pad {front back : String} (led : allBlank front = true)
    (ended : allBlank back = true) (s : String) : trim (front ++ s ++ back) = trim s := by
  have start : (front ++ s ++ back).toList.dropWhile isBlank =
      (s.toList ++ back.toList).dropWhile isBlank := by
    rw [String.toList_append, String.toList_append, List.append_assoc]
    exact List.dropWhile_append_of_pos (List.all_eq_true.mp led)
  rw [trim, trim, start, List.dropWhile_append]
  split
  next empty => rw [dropWhile_eq_nil_of_all ended, List.isEmpty_iff.mp empty]
  next =>
    rw [dropEndWhile, List.reverse_append, List.dropWhile_append_of_pos]
    · rfl
    · simpa using List.all_eq_true.mp ended

end Quire.Text
