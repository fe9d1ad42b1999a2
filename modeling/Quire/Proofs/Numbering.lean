import Quire.Numbering
import Quire.Reference
import Quire.Proofs.Text.Cut
import Quire.Proofs.Text.Numeral

/-! The numbers of headings, in whatever order their levels come. What a heading counts up grows,
and what it clears stands behind that, so the numbers of a level grow from left to right; numbers of
two levels differ in their length. Main statement: `nodup_number_run`. -/
namespace Quire

namespace Counters

structure Heading where
  level : Level
  counters : Counters

def Heading.numbers (h : Heading) : List Nat := h.counters.upTo h.level

def Heading.number (h : Heading) : String := h.counters.current h.level

def run (c : Counters) : List Level → List Heading
  | [] => []
  | level :: levels => ⟨level, c.bump level⟩ :: (c.bump level).run levels

/-- A heading leaves the counters above its level as they are. -/
theorem upTo_bump_of_lt {level bumped : Level} (above : level.rank < bumped.rank) (c : Counters) :
    (c.bump bumped).upTo level = c.upTo level := by
  cases level <;> cases bumped <;> first | rfl | simp [Level.rank] at above

/-- A heading raises the counters down to its own level or a lower one. -/
theorem lex_upTo_bump {level bumped : Level} (within : bumped.rank ≤ level.rank) (c : Counters) :
    List.Lex (· < ·) (c.upTo level) ((c.bump bumped).upTo level) := by
  cases bumped with
  | chapter => cases level <;> exact .rel (Nat.lt_succ_self _)
  | section_ =>
    cases level with
    | chapter => simp [Level.rank] at within
    | _ => exact .cons (.rel (Nat.lt_succ_self _))
  | subsection =>
    cases level with
    | chapter | section_ => simp [Level.rank] at within
    | _ => exact .cons (.cons (.rel (Nat.lt_succ_self _)))
  | subsubsection =>
    cases level with
    | subsubsection => exact .cons (.cons (.cons (.rel (Nat.lt_succ_self _))))
    | _ => simp [Level.rank] at within

/-- Behind a heading, the counters of a level are raised or as they were. -/
theorem upTo_bump (c : Counters) (level bumped : Level) :
    (c.bump bumped).upTo level = c.upTo level ∨
      List.Lex (· < ·) (c.upTo level) ((c.bump bumped).upTo level) := by
  rcases Nat.lt_or_ge level.rank bumped.rank with above | within
  · exact .inl (upTo_bump_of_lt above c)
  · exact .inr (lex_upTo_bump within c)

/-- All headings of a level behind some counters have greater numbers than these. -/
theorem lex_numbers_run (c : Counters) (levels : List Level) :
    ∀ h ∈ c.run levels, List.Lex (· < ·) (c.upTo h.level) h.numbers := by
  induction levels generalizing c with
  | nil => simp [run]
  | cons level levels ih =>
    intro h member
    rcases List.mem_cons.mp member with rfl | behind
    · exact lex_upTo_bump (Nat.le_refl _) c
    · have later := ih (c.bump level) h behind
      rcases upTo_bump c h.level level with same | raised
      · rwa [same] at later
      · exact List.lex_trans Nat.lt_trans raised later

/-- The numbers of one level grow. -/
theorem pairwise_numbers_run (c : Counters) (levels : List Level) :
    (c.run levels).Pairwise fun h k =>
      h.level = k.level → List.Lex (· < ·) h.numbers k.numbers := by
  induction levels generalizing c with
  | nil => exact .nil
  | cons level levels ih =>
    refine .cons (fun h member same => ?_) (ih (c.bump level))
    have later := lex_numbers_run (c.bump level) levels h member
    rwa [← same] at later

theorem length_upTo (c : Counters) (level : Level) : (c.upTo level).length = level.rank := by
  cases level <;> rfl

theorem rank_injective {level other : Level} (same : level.rank = other.rank) : level = other := by
  cases level <;> cases other <;> first | rfl | simp [Level.rank] at same

theorem nodup_numbers_run (c : Counters) (levels : List Level) :
    ((c.run levels).map Heading.numbers).Nodup := by
  rw [List.Nodup, List.pairwise_map]
  refine (pairwise_numbers_run c levels).imp fun {h k} grows same => ?_
  have level : h.level = k.level := by
    apply rank_injective
    rw [← length_upTo h.counters, ← length_upTo k.counters]
    exact congrArg List.length same
  have greater := grows level
  rw [same] at greater
  exact List.lex_irrefl Nat.lt_irrefl _ greater

theorem not_mem_dotted {c : Char} (digit : c.isDigit = false) (dot : c ≠ '.')
    (numbers : List Nat) : c ∉ (dotted numbers).toList := by
  refine Text.not_mem_intercalate (by simpa using dot) fun piece member => ?_
  obtain ⟨n, -, rfl⟩ := List.mem_map.mp member
  rw [Nat.toString_eq_repr, Nat.toList_repr]
  exact Text.not_mem_toDigits digit n

/-- The counters that a number shows can be read off it. -/
theorem dotted_injective {numbers others : List Nat} (some_ : numbers ≠ [])
    (some_others : others ≠ []) (same : dotted numbers = dotted others) : numbers = others := by
  have split {numbers : List Nat} (some_ : numbers ≠ []) :
      (Text.splitChars (· == '.') (dotted numbers).toList).map Text.ofDigits = numbers := by
    obtain ⟨n, more, rfl⟩ := List.exists_cons_of_ne_nil some_
    have plain : ∀ piece ∈ (n :: more).map toString, '.' ∉ piece.toList := by
      intro piece member
      obtain ⟨m, -, rfl⟩ := List.mem_map.mp member
      rw [Nat.toString_eq_repr, Nat.toList_repr]
      exact Text.not_mem_toDigits rfl m
    have pieces := Text.splitChars_intercalate plain
    have digits (m : Nat) : Text.ofDigits (toString m).toList = m := by
      rw [Nat.toString_eq_repr, Nat.toList_repr, Text.ofDigits_toDigits]
    rw [dotted]
    refine (congrArg (List.map Text.ofDigits) pieces).trans ?_
    rw [← List.map_cons, List.map_map, List.map_map]
    exact List.map_id'' digits _
  rw [← split some_, ← split some_others, same]

end Counters

theorem Reference.sectionAnchor_injective {number other : String} (plain : '_' ∉ number.toList)
    (plain_other : '_' ∉ other.toList) (same : sectionAnchor number = sectionAnchor other) :
    number = other := by
  have back {cs : List Char} (plain : '_' ∉ cs) :
      (cs.map fun c => if c = '.' then '_' else c).map (fun c => if c = '_' then '.' else c) = cs := by
    rw [List.map_map]
    refine (List.map_congr_left fun c member => ?_).trans (List.map_id cs)
    have other : c ≠ '_' := fun same => plain (same ▸ member)
    by_cases dot : c = '.' <;> simp [dot, other]
  have mapped := String.append_right_inj _ |>.mp same
  rw [String.ofList_inj] at mapped
  rw [← String.toList_inj, ← back plain, mapped, back plain_other]

namespace Counters

theorem upTo_ne_nil (c : Counters) (level : Level) : c.upTo level ≠ [] := by
  cases level <;> simp [upTo]

/-- Under whatever headings a chapter has, the numbers of one level grow from left to right, no
number stands twice, and no anchor. -/
theorem nodup_number_run (chapter : Nat) (levels : List Level) :
    let headings := (forChapter chapter).run levels
    (headings.Pairwise fun h k =>
        h.level = k.level → List.Lex (· < ·) h.numbers k.numbers) ∧
      (headings.map (·.number)).Nodup ∧
      (headings.map (Reference.sectionAnchor ·.number)).Nodup := by
  intro headings
  have numbers : headings.Pairwise (·.numbers ≠ ·.numbers) :=
    List.pairwise_map.mp (nodup_numbers_run (forChapter chapter) levels)
  have number : headings.Pairwise (·.number ≠ ·.number) := by
    refine numbers.imp fun {h k} apart same => apart ?_
    exact dotted_injective (upTo_ne_nil _ _) (upTo_ne_nil _ _) same
  have plain (h : Heading) : '_' ∉ h.number.toList := not_mem_dotted rfl (by decide) _
  refine ⟨pairwise_numbers_run _ levels, List.pairwise_map.mpr number, List.pairwise_map.mpr ?_⟩
  exact number.imp fun {h k} apart same =>
    apart (Reference.sectionAnchor_injective (plain h) (plain k) same)

/-- Each heading clears the levels below it, and levels may be left out. -/
example : ((forChapter 3).run [.chapter, .section_, .subsection, .section_, .subsubsection, .chapter,
    .subsection]).map (·.number) = ["3", "3.1", "3.1.1", "3.2", "3.2.0.1", "4", "4.0.1"] := by
  decide +kernel

end Counters
end Quire
