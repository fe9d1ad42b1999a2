import Mathlib.Tactic.MkIffOfInductiveProp
import Quire.Bibliography
import Quire.Proofs.Text.Trim

/-! Lines of a bibliography. A line that is not blank and starts no entry belongs to the entry that
is being read, and adds its text to it, unless it starts with the end of the bibliography. Main
statements: `readLines_append` and `readLines_ends`. -/
namespace Quire.Bibliography

@[mk_iff]
structure GoesOn (line : String) : Prop where
  solid : Text.allBlank line = false
  fresh : ¬ "\\bibitem".toList <+: (Text.trimStart line).toList

def Ends (line : String) : Prop :=
  Text.allBlank line = true ∨ "\\bibitem".toList <+: (Text.trimStart line).toList

instance (line : String) : Decidable (GoesOn line) :=
  @decidable_of_iff' _ _ (goesOn_iff line) inferInstance

instance (line : String) : Decidable (Ends line) := inferInstanceAs (Decidable (_ ∨ _))

def closes (line : String) : Bool :=
  "\\end\x7bthebibliography\x7d".toList.isPrefixOf (Text.trimStart line).toList

/-- What lines add to the text of the entry they belong to. -/
def texts (lines : List String) : List String :=
  (lines.filter fun line => !closes line).map Text.trim

section Line
variable {target : Target} {line more : String} {lines front : List String} {bib : Bibliography}
  {draft : Draft}

theorem toList_trimStart (line : String) :
    (Text.trimStart line).toList = line.toList.dropWhile Text.isBlank := by
  rw [Text.trimStart, Text.dropFront, String.toList_ofList]

theorem trimStart_append (line more : String) :
    (Text.trimStart line).toList <+: (Text.trimStart (line ++ more)).toList := by
  rw [toList_trimStart, toList_trimStart, String.toList_append, List.dropWhile_append]
  split
  next none_ => simp [List.isEmpty_iff.mp none_]
  next => exact List.prefix_append _ _

theorem GoesOn.of_append (goesOn : GoesOn (line ++ more)) (solid : Text.allBlank line = false) :
    GoesOn line :=
  ⟨solid, fun starts => goesOn.fresh (starts.trans (trimStart_append line more))⟩

theorem closes_of_append (plain : closes (line ++ more) = false) : closes line = false := by
  refine Bool.eq_false_iff.mpr fun starts => Bool.eq_false_iff.mp plain ?_
  rw [closes, List.isPrefixOf_iff_prefix] at starts ⊢
  exact starts.trans (trimStart_append line more)

theorem texts_append (front lines : List String) :
    texts (front ++ lines) = texts front ++ texts lines := by
  simp only [texts, List.filter_append, List.map_append]

theorem texts_plain (plain : closes line = false) : texts [line] = [Text.trim line] := by
  simp [texts, plain]

theorem texts_closing (lines : List String) : texts (lines.filter closes) = [] := by
  simp [texts]

theorem readLines_blank (blank : Text.allBlank line = true) (draft : Option Draft) :
    readLines target bib draft (line :: lines) =
      readLines target (bib.close target draft) none lines := by
  have start : line.toList.dropWhile Text.isBlank = [] := Text.dropWhile_eq_nil_of_all blank
  simp [readLines, start]

/-- A line that starts an entry ends the one that is being read. -/
theorem readLines_item {item : Item}
    (starts : Item.ofLine? (Text.trimStart line).toList = some item) (draft : Option Draft) :
    readLines target bib draft (line :: lines) =
      readLines target (bib.close target draft) (some (.ofItem item)) lines := by
  rw [toList_trimStart] at starts
  have led : "\\bibitem".toList.isPrefixOf (line.toList.dropWhile Text.isBlank) = true := by
    obtain ⟨more, front, -⟩ := Option.bind_eq_some_iff.mp starts
    rw [List.isPrefixOf_iff_prefix]
    exact ⟨more, List.isPrefixOf?_eq_some_iff_append_eq.mp front⟩
  simp only [readLines, led, if_true, starts]

theorem readLines_cons (goesOn : GoesOn line) :
    readLines target bib (some draft) (line :: lines) =
      readLines target bib (some { draft with lines := draft.lines ++ texts [line] }) lines := by
  obtain ⟨solid, fresh⟩ := goesOn
  have some_ : (line.toList.dropWhile Text.isBlank).isEmpty = false := by
    simpa [Text.allBlank] using solid
  rw [toList_trimStart, ← List.isPrefixOf_iff_prefix] at fresh
  have closed : "\\end\x7bthebibliography\x7d".toList.isPrefixOf
      (line.toList.dropWhile Text.isBlank) = closes line := by rw [closes, toList_trimStart]
  rw [readLines]
  simp only [fresh, some_, closed, Bool.false_eq_true, if_false, Option.map_some]
  cases plain : closes line <;> simp [texts, plain]

theorem readLines_append (goOn : ∀ line ∈ front, GoesOn line) (draft : Draft) :
    readLines target bib (some draft) (front ++ lines) =
      readLines target bib (some { draft with lines := draft.lines ++ texts front }) lines := by
  induction front generalizing draft with
  | nil => simp [texts]
  | cons line front ih =>
    obtain ⟨first, goOn⟩ := List.forall_mem_cons.mp goOn
    have both : texts (line :: front) = texts [line] ++ texts front := texts_append [line] front
    rw [List.cons_append, readLines_cons first, ih goOn, both, List.append_assoc]

/-- Behind its lines, nothing but its entry counts of what was read. -/
theorem readLines_ends {draft' : Draft} (ends : ∀ line ∈ lines.head?, Ends line)
    (same : draft.finish target = draft'.finish target) :
    readLines target bib (some draft) lines = readLines target bib (some draft') lines := by
  have closed : bib.close target (some draft) = bib.close target (some draft') :=
    congrArg bib.insert same
  cases lines with
  | nil => exact congrArg Except.ok closed
  | cons line lines =>
    obtain blank | starts := ends line rfl
    · rw [readLines_blank blank, readLines_blank blank, closed]
    · rw [toList_trimStart, ← List.isPrefixOf_iff_prefix] at starts
      simp only [readLines, starts, if_true, closed]

/-- Two ends of a text that are read alike are read alike behind the same lines. -/
theorem readLines_congr {ends ends' : List String}
    (same : ∀ bib draft, readLines target bib draft ends = readLines target bib draft ends')
    (draft : Option Draft) : readLines target bib draft (front ++ ends) =
      readLines target bib draft (front ++ ends') := by
  induction front generalizing bib draft with
  | nil => exact same bib draft
  | cons line front ih =>
    simp only [List.cons_append, readLines, ih]

end Line

end Quire.Bibliography
