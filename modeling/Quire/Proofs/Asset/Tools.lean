import Quire.Asset.Picture
import Quire.Proofs.Disk.Folders
import Quire.Proofs.Text.Numeral

/-! What the publishing of images relies on: a program makes the picture that it is asked for, or
works in a folder of its own, and changes no other file. -/
namespace Quire

namespace Disk

/-- The same folders but for one and those below it, and the same files at some of the places that
are not below it. -/
structure Spares (inner : Place) (untouched : Place → Prop) (before after : Disk) : Prop where
  home_eq : after.home = before.home
  isFolder_eq : ∀ place, ¬ inner <+: place → after.isFolder place = before.isFolder place
  entry_eq : ∀ place, ¬ inner <+: place → untouched place →
    after.entry? place = before.entry? place

variable {inner : Place} {untouched fewer : Place → Prop} {a b c : Disk}

theorem Spares.trans (first : Spares inner untouched a b) (second : Spares inner untouched b c) :
    Spares inner untouched a c where
  home_eq := second.home_eq.trans first.home_eq
  isFolder_eq := fun place apart =>
    (second.isFolder_eq place apart).trans (first.isFolder_eq place apart)
  entry_eq := fun place apart kept =>
    (second.entry_eq place apart kept).trans (first.entry_eq place apart kept)

theorem Spares.weaken (spares : Spares inner untouched a b)
    (weaker : ∀ place, fewer place → untouched place) : Spares inner fewer a b :=
  ⟨spares.home_eq, spares.isFolder_eq,
    fun place apart kept => spares.entry_eq place apart (weaker place kept)⟩

theorem Leaves.spares (leaves : Leaves fewer a b)
    (weaker : ∀ place, ¬ inner <+: place → untouched place → fewer place) :
    Spares inner untouched a b :=
  ⟨leaves.home_eq, fun place _ => leaves.isFolder_eq place,
    fun place apart kept => leaves.entry_eq place (weaker place apart kept)⟩

theorem MadeFolder.spares {path : String} (made : MadeFolder a b path inner) :
    Spares inner untouched a b where
  home_eq := made.grown.home_eq
  isFolder_eq := fun place apart => by
    have other : place ≠ inner := by rintro rfl; exact apart List.prefix_rfl
    rw [made.isFolder_eq, beq_eq_false_iff_ne.mpr other, Bool.or_false]
  entry_eq := fun place _ _ => congrArg (List.lookup place) made.files_eq

def Unused (disk : Disk) (inner : Place) : Prop :=
  ∀ place, inner <+: place → disk.isFolder place = false ∧ disk.entry? place = none

/-- A folder that was made and is gone again leaves no trace. -/
theorem leaves_removeFolder {folder : String} (unused : a.Unused inner)
    (located : b.locate folder = .place inner) (spares : Spares inner untouched a b) :
    Leaves untouched a (b.removeFolder folder) := by
  have isPrefix (place : Place) : (!inner.isPrefixOf place) = true ↔ ¬ inner <+: place := by
    simp [← List.isPrefixOf_iff_prefix]
  unfold removeFolder
  rw [located]
  refine ⟨spares.home_eq, fun place => ?_, fun place kept => ?_⟩
  · simp only [isFolder]
    rw [lookup_filter (!inner.isPrefixOf ·)]
    by_cases below : inner <+: place
    · have none_ := (unused place below).1
      simp only [isFolder, Bool.or_eq_false_iff] at none_
      rw [if_neg (mt (isPrefix place).mp (not_not.mpr below)), none_.1, none_.2]
      rfl
    · rw [if_pos ((isPrefix place).mpr below)]
      exact spares.isFolder_eq place below
  · unfold entry?
    rw [lookup_filter (!inner.isPrefixOf ·)]
    by_cases below : inner <+: place
    · rw [if_neg (mt (isPrefix place).mp (not_not.mpr below))]
      exact (unused place below).2.symm
    · rw [if_pos ((isPrefix place).mpr below)]
      exact spares.entry_eq place below kept

end Disk

namespace Asset

/-- The name of the picture of one page, where a figure has many. -/
def pageName (name : String) (n : Nat) : String :=
  (Path.cutName name).1 ++ "-" ++ toString n ++ ".png"

/-- Where the picture of a path may be made: there, or under the names of its pages beside it. -/
def MayMake (disk : Disk) (target : String) (place : Place) : Prop :=
  ∃ folder name, disk.locate target = .place (folder ++ [name]) ∧
    Path.fileName? target = some name ∧
    (place = folder ++ [name] ∨ ∃ n : Nat, place = folder ++ [pageName name n])

/-- Tools that keep to their task. -/
structure Tools.Neat (tools : Tools) : Prop where
  convert : ∀ source target seconds disk,
    Disk.Leaves (¬ MayMake disk target ·) disk (tools.run (.convert source target) seconds disk).2
  typeset : ∀ folder place seconds disk, disk.locate folder = .place place →
    Disk.Spares place (fun _ => True) disk (tools.run (.typeset folder) seconds disk).2 ∧
      (tools.run (.typeset folder) seconds disk).2.isFolder place = disk.isFolder place
  scratch : ∀ disk made place, Disk.MadeFolder disk made (tools.scratch disk) place →
    disk.Unused place
  /-- A file without a byte is no picture. -/
  measure : ∀ path size, tools.measure path (.text "") ≠ .ok size

theorem measure_ne_ok (path : String) (size : Nat × Nat) :
    Picture.measure path (.text "") ≠ .ok size := by
  unfold Picture.measure
  split <;> simp_all

end Asset
end Quire
