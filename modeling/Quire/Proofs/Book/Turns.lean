import Quire.Proofs.Book.Chapter

/-! Chapters that are rendered at the same time. Each is led by the trees that its accesses find,
and it finds its page as it was until it writes it itself. -/
namespace Quire.Book

variable {book : Book} {chapter : Chapter} {before disk after : Disk} {task : Task}

theorem Task.inStep_find (fresh : task.desk.visits = []) (disk disk' : Disk) :
    (task.find disk).desk.InStep task.desk.found.length (task.find disk').desk := by
  refine ⟨rfl, rfl, ?_, ?_⟩ <;> simp [Task.find, fresh]

theorem Task.inStep_find_find (fresh : task.desk.visits = []) (disk disk' : Disk) :
    (task.find disk).desk.InStep (task.desk.found.length + 1) ((task.find disk).find disk').desk := by
  refine ⟨rfl, rfl, ?_, ?_⟩
  · simp [Task.find, fresh]
  · have whole : (task.desk.found ++ [disk]).length = task.desk.found.length + 1 := by simp
    simp only [Task.find, fresh, List.length_nil, Nat.sub_zero]
    rw [List.take_append_of_le_length whole.ge]

theorem Starts.find (starts : book.Starts before task.desk) (beside : book.Beside before disk) :
    book.Starts before (task.find disk).desk := by
  refine ⟨starts.fresh, fun other member => ?_⟩
  rw [Task.find, ← List.cons_append, List.mem_append, List.mem_singleton] at member
  obtain found | rfl := member
  · exact starts.beside other found
  · exact beside

/-- A chapter that has accesses left when it finds a tree, and what it comes to from there. -/
theorem outcome_writeChapter (neat : book.tools.Neat) {found : List Disk} {desk : Desk}
    (starts : book.Starts before desk) (finds : desk.found = found ++ [disk])
    (has : disk.HasFolders book.settings.imageDir) (same : book.SamePage chapter before disk)
    (late : found.length < (book.writeChapter chapter desk).2.visits.length) :
    book.Keeps (·.ordinal ≠ chapter.ordinal) disk (book.writeChapter chapter desk).2.disk ∧
      book.Outcome before (book.writeChapter chapter desk).2.disk chapter
        (chapter.ordinal, (book.writeChapter chapter desk).1) := by
  have reach := (runs_renderChapter neat chapter desk).reach (fun _ => .refl _)
    (fun _ _ _ => .trans) starts.fresh finds
  obtain ⟨fault, desk', rendered, wrote⟩ | ⟨body, desk', rendered, wrote⟩ :=
    writeChapter_cases book chapter desk
  · rw [rendered] at reach
    rw [wrote] at late ⊢
    have next_eq : desk'.next = desk'.disk := by
      have none : desk'.found = [] := by
        rw [reach.1, List.drop_eq_nil_iff, List.length_append]
        exact late
      rw [Desk.next, none]
      rfl
    have keeps := reach.2 late.le
    rw [next_eq] at keeps
    exact ⟨keeps.weaken fun _ _ => trivial, .kept (same.trans ((keeps has).2 chapter trivial))⟩
  · rw [rendered] at reach
    rw [wrote, Desk.length_proceed] at late
    have keeps := reach.2 (Nat.le_of_lt_succ late)
    have rest : book.Keeps (·.ordinal ≠ chapter.ordinal) disk desk'.next :=
      keeps.weaken fun _ _ => trivial
    have page := rest.trans (keeps_writePage chapter (book.page chapter body.body) desk'.next)
    have outcome := outcome_writeText starts rendered (same.trans ((keeps has).2 chapter trivial))
    rw [wrote, Desk.disk_proceed]
    dsimp only at outcome ⊢
    exact ⟨page, outcome⟩

/-- Where a chapter is when it finds a tree next: its page is still as it was before, or it has
nothing left to do. -/
structure Stands (book : Book) (before disk : Disk) (task : Task) : Prop where
  starts : book.Starts before task.desk
  working : task.desk.found.length <
      (book.writeChapter task.chapter (task.find disk).desk).2.visits.length →
    book.SamePage task.chapter before disk
  done : (book.writeChapter task.chapter (task.find disk).desk).2.visits.length ≤
      task.desk.found.length →
    book.Outcome before disk task.chapter
      (task.chapter.ordinal, (book.writeChapter task.chapter (task.find disk).desk).1)

/-- What other chapters do in between leaves a chapter where it is. -/
theorem Stands.later (stands : book.Stands before disk task)
    (same : book.SamePage task.chapter disk after) : book.Stands before after task := by
  have together := together_writeChapter book task.chapter
    (task.inStep_find stands.starts.fresh disk after)
  obtain ⟨more, more'⟩ | ⟨result_eq, few, few'⟩ := together
  · exact ⟨stands.starts, fun _ => (stands.working more).trans same,
      fun few => absurd more' few.not_gt⟩
  · refine ⟨stands.starts, fun more => absurd more few'.not_gt, fun _ => ?_⟩
    rw [← result_eq]
    exact (stands.done few).later same

/-- One access of a chapter. -/
theorem stands_advance (neat : book.tools.Neat) (has : disk.HasFolders book.settings.imageDir)
    (beside : book.Beside before disk) (stands : book.Stands before disk task) :
    (book.advance task disk).1.chapter = task.chapter ∧
      book.Keeps (·.ordinal ≠ task.chapter.ordinal) disk (book.advance task disk).2 ∧
      book.Stands before (book.advance task disk).2 (book.advance task disk).1 := by
  have fresh := stands.starts.fresh
  have starts := stands.starts.find beside
  have runs := runs_writeChapter neat task.chapter (task.find disk).desk
  unfold advance
  dsimp only
  split
  next found after visit =>
    have more := (List.getElem?_eq_some_iff.mp visit).1
    obtain rfl := runs.before_eq starts.fresh rfl visit
    refine ⟨rfl, runs.holds (by rw [starts.fresh]; exact Nat.zero_le _) visit, starts, ?_, ?_⟩
    all_goals
      obtain ⟨many, many'⟩ | ⟨result_eq, few, few'⟩ := together_writeChapter book task.chapter
        (task.inStep_find_find fresh found after)
    · intro _
      have renders := runs_renderChapter neat task.chapter (task.find found).desk
      have keeps := renders.holds (by rw [starts.fresh]; exact Nat.zero_le _)
        (visit_renderChapter visit many)
      exact (stands.working more).trans ((keeps has).2 task.chapter trivial)
    · intro later
      rw [Task.find, List.length_append] at later
      exact absurd later few'.not_gt
    · intro ended
      rw [Task.find, List.length_append] at ended
      exact absurd many' ended.not_gt
    · intro _
      have last := runs.disk_eq starts.fresh visit (Nat.le_antisymm few more)
      have outcome := (outcome_writeChapter neat starts rfl has (stands.working more) more).2
      rw [last, result_eq] at outcome
      exact outcome
  next => exact ⟨rfl, .refl disk, stands⟩

/-- Chapters at work at the same time, no two of them for the same page. -/
structure AtWork (book : Book) (before disk : Disk) (tasks : List Task) : Prop where
  beside : book.Beside before disk
  stands : ∀ (i : Nat) (task : Task), tasks[i]? = some task → book.Stands before disk task
  apart : (tasks.map (·.chapter.ordinal)).Nodup

theorem AtWork.ordinal_ne {tasks : List Task} (atWork : book.AtWork before disk tasks) {i j : Nat}
    {task task' : Task} (at_ : tasks[i]? = some task) (at' : tasks[j]? = some task') (other : i ≠ j) :
    task.chapter.ordinal ≠ task'.chapter.ordinal := by
  intro same
  have inside : i < (tasks.map (·.chapter.ordinal)).length := by
    rw [List.length_map]
    exact (List.getElem?_eq_some_iff.mp at_).1
  refine other ((List.getElem?_inj inside atWork.apart).mp ?_)
  rw [List.getElem?_map, List.getElem?_map, at_, at', Option.map_some, Option.map_some, same]

/-- One turn: the chapter whose turn it is has its next access, and the others stay where they are. -/
theorem AtWork.advance (neat : book.tools.Neat) (has : before.HasFolders book.settings.imageDir)
    {tasks : List Task} (atWork : book.AtWork before disk tasks) {turn : Nat}
    (at_ : tasks[turn]? = some task) :
    (tasks.set turn (book.advance task disk).1).map (·.chapter) = tasks.map (·.chapter) ∧
      book.AtWork before (book.advance task disk).2
        (tasks.set turn (book.advance task disk).1) := by
  have here := has.of_grown atWork.beside.grown
  obtain ⟨chapter, keeps, stands⟩ :=
    stands_advance neat here atWork.beside (atWork.stands turn task at_)
  generalize book.advance task disk = advanced at *
  obtain ⟨task', after⟩ := advanced
  dsimp only at chapter keeps stands ⊢
  obtain ⟨inside, rfl⟩ := List.getElem?_eq_some_iff.mp at_
  have chapters : (tasks.set turn task').map (·.chapter) = tasks.map (·.chapter) := by
    rw [List.map_set, chapter, ← List.map_set, List.set_getElem_self]
  refine ⟨chapters, atWork.beside.trans (keeps here).1, fun i other found => ?_, ?_⟩
  · rw [List.getElem?_set] at found
    split at found
    next same =>
      obtain rfl : task' = other := by simpa [inside] using found
      exact stands
    next differs =>
      refine (atWork.stands i other found).later ((keeps here).2 other.chapter ?_)
      exact (atWork.ordinal_ne at_ found differs).symm
  · have ordinals := congrArg (List.map Chapter.ordinal) chapters
    rw [List.map_map, List.map_map] at ordinals
    exact ordinals ▸ atWork.apart

end Quire.Book
