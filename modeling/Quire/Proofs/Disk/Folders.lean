import Mathlib.Data.List.Basic
import Mathlib.Data.List.DropRight
import Quire.Disk
import Quire.Proofs.Text.Cut

/-! Where the paths of a tree lead to. A name joined to the path of a folder leads into that
folder. What a path leads to stays so while folders are only added, and folders that were made are
not made again. -/
namespace Quire

namespace Path

structure IsName (name : String) : Prop where
  plain : '/' ∉ name.toList
  spoken : isSilent name = false
  down : name ≠ ".."

abbrev split (cs : List Char) : List (List Char) := Text.splitChars (· == '/') cs

theorem split_ne_nil (cs : List Char) : split cs ≠ [] := Text.splitChars_ne_nil _ cs

theorem split_of_plain {cs : List Char} (plain : '/' ∉ cs) : split cs = [cs] :=
  Text.splitChars_of_apart fun _ member =>
    beq_eq_false_iff_ne.mpr fun same => plain (same ▸ member)

theorem split_append (as bs : List Char) : split (as ++ '/' :: bs) = split as ++ split bs :=
  Text.splitChars_append_cons rfl as bs

theorem pieces_eq (path : String) :
    pieces path =
      ((split path.toList).drop (if isAbsolute path then 1 else 0)).map .ofList := by
  simp only [pieces, Text.splitOn, split]
  split
  · rw [List.map_drop]
  · rw [List.drop_zero]

/-- A relative path with a piece in front that is empty is the empty path. -/
theorem head?_pieces {path : String} (relative : isAbsolute path = false) (some : path ≠ "") :
    (pieces path).head? ≠ .some "" := by
  rw [pieces_eq, relative]
  cases chars : path.toList with
  | nil => exact absurd (String.toList_eq_nil_iff.mp chars) some
  | cons c cs =>
    have other : c ≠ '/' := by
      rintro rfl
      simp [isAbsolute, chars] at relative
    simp only [split, Text.splitChars_cons, beq_eq_false_iff_ne.mpr other, Bool.false_eq_true, if_false,
      List.drop_zero]
    split <;> simp [String.ofList_eq_empty_iff]

/-- The pieces behind a slash come after those in front of it. -/
theorem pieces_append {path : String} {as bs : List Char} (chars : path.toList = as ++ '/' :: bs)
    (plain : '/' ∉ bs) :
    pieces path =
      ((split as).drop (if isAbsolute path then 1 else 0)).map .ofList ++ [.ofList bs] := by
  have some : (if isAbsolute path then 1 else 0) ≤ (split as).length := by
    have := List.length_pos_iff.mpr (split_ne_nil as)
    split <;> omega
  rw [pieces_eq, chars, split_append, split_of_plain plain, List.drop_append_of_le_length some,
    List.map_append]
  rfl

/-- A name behind a folder is the last piece of its path. What stands before it are the pieces of
the folder, but for an empty one at their end. -/
theorem exists_pieces_join (dir : String) {name : String} (plain : '/' ∉ name.toList) :
    ∃ front, pieces (join dir name) = front ++ [name] ∧
      (pieces dir = front ∨ pieces dir = front ++ [""]) ∧
      isAbsolute (join dir name) = isAbsolute dir := by
  have relative : isAbsolute name = false := by
    cases chars : name.toList with
    | nil => simp [isAbsolute, chars]
    | cons c cs =>
      rw [chars] at plain
      simpa [isAbsolute, chars] using fun same : c = '/' => plain (same ▸ List.mem_cons_self)
  by_cases none : dir = ""
  · subst none
    refine ⟨[], ?_, .inr rfl, ?_⟩
    · have alone : pieces name = [name] := by
        rw [pieces_eq, relative, split_of_plain plain]
        simp
      simpa [join, relative] using alone
    · rw [join, if_pos (by simp), relative]
      rfl
  have some : dir.isEmpty = false := by simpa using none
  obtain ⟨c, cs, chars⟩ := List.exists_cons_of_ne_nil (mt String.toList_eq_nil_iff.mp none)
  by_cases slash : dir.toList.getLast? = .some '/'
  · obtain ⟨as, ended⟩ := List.getLast?_eq_some_iff.mp slash
    have joined : (join dir name).toList = as ++ '/' :: name.toList := by
      simp [join, relative, some, ended]
    have absolute : isAbsolute (join dir name) = isAbsolute dir := by
      rw [isAbsolute, isAbsolute, joined, ended]
      cases as <;> rfl
    refine ⟨_, (pieces_append joined plain).trans (by rw [String.ofList_toList]), .inr ?_, absolute⟩
    rw [absolute]
    exact pieces_append ended List.not_mem_nil
  · have joined : (join dir name).toList = dir.toList ++ '/' :: name.toList := by
      simp [join, relative, some, slash]
    have absolute : isAbsolute (join dir name) = isAbsolute dir := by
      rw [isAbsolute, isAbsolute, joined, chars]
      rfl
    refine ⟨_, (pieces_append joined plain).trans (by rw [String.ofList_toList]), .inl ?_, absolute⟩
    rw [absolute, pieces_eq]

/-- A path that is not refused before its pieces are followed. -/
def MayBeAsked (path : String) : Prop :=
  path.isEmpty = false ∧ path.toList.contains '\x00' = false ∧ path.utf8ByteSize < 4096

end Path

namespace Disk

/-- Where the pieces of a path lead to, whether the path may be asked for or not. -/
def position (disk : Disk) (path : String) : Located :=
  (Path.pieces path).foldl disk.enter (disk.start path)

theorem follow_eq_iff {disk : Disk} {path : String} {pieces : List String} {reached : Located}
    (here : ∀ problem, reached ≠ .nowhere problem) :
    disk.follow path pieces = reached ↔
      Path.MayBeAsked path ∧ pieces.foldl disk.enter (disk.start path) = reached := by
  simp only [follow, Path.MayBeAsked]
  split
  next none => exact ⟨fun refused => absurd refused.symm (here _), by simp [none]⟩
  split
  next zero =>
    refine ⟨fun refused => absurd refused.symm (here _), fun asked => ?_⟩
    rw [asked.1.2.1] at zero
    cases zero
  split
  next long => exact ⟨fun refused => absurd refused.symm (here _), by omega⟩
  next some plain short => simp_all

theorem foldl_enter_nowhere (disk : Disk) (problem : FileProblem) (pieces : List String) :
    pieces.foldl disk.enter (.nowhere problem) = .nowhere problem := by
  induction pieces with
  | nil => rfl
  | cons _ _ ih => exact ih

/-- A piece that says nothing makes no difference to what comes after it. -/
theorem enter_silent (disk : Disk) (position : Located) {silent : String}
    (quiet : Path.isSilent silent = true) (piece : String) :
    disk.enter (disk.enter position silent) piece = disk.enter position piece := by
  cases position with
  | nowhere problem => rfl
  | place place =>
    by_cases folder : disk.isFolder place = true
    · simp [enter, quiet, folder]
    · simp [enter, folder]

theorem position_join (disk : Disk) (dir : String) {name : String} (plain : '/' ∉ name.toList) :
    disk.position (Path.join dir name) = disk.enter (disk.position dir) name := by
  obtain ⟨front, joined, alone, absolute⟩ := Path.exists_pieces_join dir plain
  rw [position, position, start, start, joined, absolute, List.foldl_append]
  obtain same | ended := alone
  · rw [same]
    rfl
  · rw [ended, List.foldl_append]
    exact (disk.enter_silent _ (by decide) name).symm

theorem locate_eq_place {disk : Disk} {path : String} {place : Place}
    (located : disk.locate path = .place place) : disk.position path = .place place :=
  ((follow_eq_iff (by simp)).mp located).2

/-- What a name in a folder leads to lies in that folder. -/
theorem enter_eq_place {disk : Disk} {position : Located} {name : String} {place : Place}
    (isName : Path.IsName name) (entered : disk.enter position name = .place place) :
    ∃ folder, position = .place folder ∧ place = folder ++ [name] := by
  cases position with
  | nowhere problem => cases entered
  | place folder =>
    simp only [enter, isName.spoken, isName.down, Bool.false_eq_true, if_false] at entered
    repeat' split at entered
    all_goals cases entered
    exact ⟨folder, rfl, rfl⟩

theorem locate_join {disk : Disk} {dir name : String} {place : Place} (isName : Path.IsName name)
    (located : disk.locate (Path.join dir name) = .place place) :
    ∃ folder, disk.position dir = .place folder ∧ place = folder ++ [name] := by
  have reached := locate_eq_place located
  rw [position_join _ _ isName.plain] at reached
  exact enter_eq_place isName reached

/-! Folders that are only added. -/

/-- A tree with at least the folders of another one. -/
structure Grown (before after : Disk) : Prop where
  home_eq : after.home = before.home
  isFolder : ∀ place, before.isFolder place = true → after.isFolder place = true

namespace Grown

variable {before middle after : Disk}

theorem refl (disk : Disk) : Grown disk disk := ⟨rfl, fun _ folder => folder⟩

theorem trans (first : Grown before middle) (second : Grown middle after) : Grown before after :=
  ⟨second.home_eq.trans first.home_eq,
    fun place folder => second.isFolder place (first.isFolder place folder)⟩

theorem start_eq (grown : Grown before after) (path : String) :
    after.start path = before.start path := by
  rw [start, start, grown.home_eq]

theorem foldl_enter (grown : Grown before after)
    {pieces : List String} {start reached : Located} (here : ∀ problem, reached ≠ .nowhere problem)
    (went : pieces.foldl before.enter start = reached) :
    pieces.foldl after.enter start = reached := by
  induction pieces generalizing start with
  | nil => exact went
  | cons piece pieces ih =>
    rw [List.foldl_cons] at went ⊢
    have same : after.enter start piece = before.enter start piece := by
      cases start with
      | nowhere problem => rfl
      | place place =>
        by_cases folder : before.isFolder place = true
        · simp [enter, folder, grown.isFolder place folder]
        · refine absurd went ?_
          simp only [enter, folder, Bool.not_false, if_true]
          rw [foldl_enter_nowhere]
          exact (here _).symm
    rw [same]
    exact ih went

theorem position (grown : Grown before after) {path : String} {place : Place}
    (at_ : before.position path = .place place) : after.position path = .place place := by
  rw [Disk.position, grown.start_eq]
  exact grown.foldl_enter (by simp) at_

theorem follow (grown : Grown before after) {path : String}
    {pieces : List String} {reached : Located} (here : ∀ problem, reached ≠ .nowhere problem)
    (went : before.follow path pieces = reached) : after.follow path pieces = reached := by
  obtain ⟨asked, went⟩ := (follow_eq_iff here).mp went
  rw [← grown.start_eq] at went
  exact (follow_eq_iff here).mpr ⟨asked, grown.foldl_enter here went⟩

theorem locate (grown : Grown before after) {path : String}
    {place : Place} (located : before.locate path = .place place) :
    after.locate path = .place place :=
  grown.follow (by simp) located

theorem containsFolder (grown : Grown before after) {path : String}
    (there : before.containsFolder path = true) : after.containsFolder path = true := by
  unfold Disk.containsFolder at there ⊢
  split at there
  next place located =>
    rw [grown.locate located]
    exact grown.isFolder place there
  next => cases there

end Grown

/-! Folders that are made. -/

theorem dropEndWhile_append_ends (p : String → Bool) (pieces : List String) :
    ∃ ends, pieces = Text.dropEndWhile p pieces ++ ends ∧ ∀ piece ∈ ends, p piece = true :=
  ⟨pieces.rtakeWhile p, List.rdropWhile_append_rtakeWhile.symm,
    fun _ member => List.mem_rtakeWhile_imp member⟩

theorem enter_empty_eq {disk : Disk} {start reached : Located}
    (here : ∀ problem, reached ≠ .nowhere problem) (entered : disk.enter start "" = reached) :
    start = reached := by
  subst entered
  cases start with
  | nowhere problem => rfl
  | place place =>
    by_cases folder : disk.isFolder place = true
    · simp [enter, folder, Path.isSilent]
    · simp [enter, folder] at here

theorem foldl_enter_ends {disk : Disk} {ends : List String}
    (empty : ∀ piece ∈ ends, piece.isEmpty = true)
    {start reached : Located} (here : ∀ problem, reached ≠ .nowhere problem)
    (went : ends.foldl disk.enter start = reached) : start = reached := by
  induction ends generalizing start with
  | nil => exact went
  | cons piece ends ih =>
    obtain rfl := String.isEmpty_iff.mp (empty piece List.mem_cons_self)
    have behind := ih (fun piece member => empty piece (List.mem_cons_of_mem _ member)) went
    exact enter_empty_eq here behind

theorem foldl_enter_folder {disk : Disk} {ends : List String}
    (empty : ∀ piece ∈ ends, piece.isEmpty = true) {place : Place}
    (folder : disk.isFolder place = true) :
    ends.foldl disk.enter (.place place) = .place place := by
  induction ends with
  | nil => rfl
  | cons piece ends ih =>
    obtain rfl := String.isEmpty_iff.mp (empty piece List.mem_cons_self)
    rw [List.foldl_cons]
    have stays : disk.enter (.place place) "" = .place place := by
      simp [enter, folder, Path.isSilent]
    rw [stays]
    exact ih fun piece member => empty piece (List.mem_cons_of_mem _ member)

theorem follow_trimmed {disk : Disk} {path : String} {pieces : List String} {reached : Located}
    (here : ∀ problem, reached ≠ .nowhere problem) (went : disk.follow path pieces = reached) :
    disk.follow path (Text.dropEndWhile String.isEmpty pieces) = reached := by
  obtain ⟨ends, split, empty⟩ := dropEndWhile_append_ends String.isEmpty pieces
  obtain ⟨asked, went⟩ := (follow_eq_iff here).mp went
  rw [split, List.foldl_append] at went
  exact (follow_eq_iff here).mpr ⟨asked, foldl_enter_ends empty here went⟩

theorem follow_of_trimmed {disk : Disk} {path : String} {pieces : List String} {place : Place}
    (folder : disk.isFolder place = true)
    (went : disk.follow path (Text.dropEndWhile String.isEmpty pieces) = .place place) :
    disk.follow path pieces = .place place := by
  obtain ⟨ends, split, empty⟩ := dropEndWhile_append_ends String.isEmpty pieces
  obtain ⟨asked, went⟩ := (follow_eq_iff (by simp)).mp went
  rw [follow_eq_iff (by simp), split, List.foldl_append, went]
  exact ⟨asked, foldl_enter_folder empty folder⟩

theorem makeFolder_of_containsFolder {disk : Disk} {path : String}
    (there : disk.containsFolder path = true) :
    disk.makeFolder path = (.error .inTheWay, disk) := by
  unfold containsFolder at there
  split at there
  next place located =>
    simp only [makeFolder, follow_trimmed (by simp) located, there, Bool.true_or, if_true]
  next => cases there

structure MadeFolder (before after : Disk) (path : String) (place : Place) : Prop where
  located : before.follow path (Text.dropEndWhile String.isEmpty (Path.pieces path)) = .place place
  fresh : before.isFolder place = false
  after_eq : after = { before.pass with folders := before.folders ++ [(place, before.now)] }

theorem makeFolder_cases (disk : Disk) (path : String) :
    (∃ problem, disk.makeFolder path = (.error problem, disk)) ∨
      (∃ problem, disk.makeFolder path = (.error problem, disk.pass)) ∨
      ∃ made place, disk.makeFolder path = (.ok (), made) ∧ MadeFolder disk made path place := by
  unfold makeFolder
  split
  · exact .inl ⟨_, rfl⟩
  next place located =>
    split
    · exact .inl ⟨_, rfl⟩
    next fresh =>
      split
      · exact .inr (.inl ⟨_, rfl⟩)
      · have unfolded : disk.isFolder place = false := by
          simpa using fun folder : disk.isFolder place = true => fresh (by simp [folder])
        exact .inr (.inr ⟨_, place, rfl, located, unfolded, rfl⟩)

namespace MadeFolder

variable {before after : Disk} {path : String} {place : Place}

theorem isFolder_eq (made : MadeFolder before after path place) (other : Place) :
    after.isFolder other = (before.isFolder other || other == place) := by
  have last : ([(place, before.now)].lookup other).isSome = (other == place) := by
    rw [List.lookup_cons, List.lookup_nil]
    cases other == place <;> rfl
  rw [made.after_eq]
  simp only [isFolder, List.lookup_append, Option.isSome_or, last, Bool.or_assoc]

theorem grown (made : MadeFolder before after path place) : Grown before after := by
  refine ⟨by rw [made.after_eq]; rfl, fun other folder => ?_⟩
  rw [made.isFolder_eq, folder]
  rfl

theorem locate (made : MadeFolder before after path place) : after.locate path = .place place := by
  have folder : after.isFolder place = true := by simp [made.isFolder_eq]
  exact follow_of_trimmed folder (made.grown.follow (by simp) made.located)

theorem containsFolder (made : MadeFolder before after path place) :
    after.containsFolder path = true := by
  rw [Disk.containsFolder, made.locate]
  simp [made.isFolder_eq]

theorem files_eq (made : MadeFolder before after path place) : after.files = before.files := by
  rw [made.after_eq]
  rfl

end MadeFolder

def HasFolders (disk : Disk) (path : String) : Prop :=
  ∀ folder ∈ Path.ancestors path, disk.containsFolder folder = true

theorem HasFolders.of_grown {before after : Disk} {path : String} (has : before.HasFolders path)
    (grown : Grown before after) : after.HasFolders path :=
  fun folder member => grown.containsFolder (has folder member)

/-- Folders that are there are not made again. -/
theorem HasFolders.makeFolders {disk : Disk} {path : String} (has : disk.HasFolders path) :
    disk.makeFolders path = (.ok (), disk) := by
  unfold HasFolders at has
  unfold Disk.makeFolders
  generalize Path.ancestors path = folders at has
  induction folders with
  | nil => rfl
  | cons folder folders ih =>
    have there := has folder List.mem_cons_self
    rw [makeEach, makeFolder_of_containsFolder there]
    dsimp only
    rw [if_pos there]
    exact ih fun folder member => has folder (List.mem_cons_of_mem _ member)

theorem makeEach_eq_ok {folders : List String} {disk made : Disk}
    (done : makeEach folders disk = (.ok (), made)) :
    (∀ folder ∈ folders, made.containsFolder folder = true) ∧ Grown disk made ∧
      made.files = disk.files := by
  induction folders generalizing disk with
  | nil =>
    obtain rfl : disk = made := congrArg Prod.snd done
    exact ⟨nofun, .refl disk, rfl⟩
  | cons folder folders ih =>
    have step : ∃ next, next.containsFolder folder = true ∧ Grown disk next ∧
        next.files = disk.files ∧ makeEach folders next = (.ok (), made) := by
      rw [makeEach] at done
      obtain ⟨problem, stopped⟩ | ⟨problem, stopped⟩ | ⟨next, place, makes, made⟩ :=
        disk.makeFolder_cases folder
      · rw [stopped] at done
        dsimp only at done
        split at done
        next there => exact ⟨disk, there, .refl disk, rfl, done⟩
        next => cases done
      · rw [stopped] at done
        dsimp only at done
        split at done
        next there => exact ⟨disk.pass, there, ⟨rfl, fun _ folder => folder⟩, rfl, done⟩
        next => cases done
      · rw [makes] at done
        exact ⟨next, made.containsFolder, made.grown, made.files_eq, done⟩
    obtain ⟨next, there, grown, files, done⟩ := step
    obtain ⟨has, grown', files'⟩ := ih done
    refine ⟨fun other member => ?_, grown.trans grown', files'.trans files⟩
    obtain rfl | member := List.mem_cons.mp member
    · exact grown'.containsFolder there
    · exact has other member

theorem makeFolders_eq_ok {disk made : Disk} {path : String}
    (done : disk.makeFolders path = (.ok (), made)) :
    made.HasFolders path ∧ Grown disk made ∧ made.files = disk.files :=
  makeEach_eq_ok done

/-! Files that are written. -/

theorem lookup_filter {β : Type} (keep : Place → Bool) (all : List (Place × β)) (place : Place) :
    (all.filter fun e => keep e.1).lookup place = if keep place then all.lookup place else none := by
  induction all with
  | nil => simp
  | cons first all ih =>
    obtain ⟨name, b⟩ := first
    by_cases same : place = name
    · subst same
      by_cases kept : keep place = true <;> simp [kept, ih]
    · have differs : (place == name) = false := beq_eq_false_iff_ne.mpr same
      by_cases kept : keep name = true <;> simp [kept, ih, List.lookup_cons, differs]

theorem lookup_put (disk : Disk) (place other : Place) (entry : Entry) :
    Disk.entry? (disk.put place entry) other =
      if other = place then some entry else disk.entry? other := by
  simp only [put, entry?, List.lookup_append]
  rw [lookup_filter (· != place)]
  by_cases same : other = place
  · simp [same]
  · simp [same, List.lookup_cons, beq_eq_false_iff_ne.mpr same]

/-- The same folders, and the same files at some places. -/
structure Leaves (untouched : Place → Prop) (before after : Disk) : Prop where
  home_eq : after.home = before.home
  isFolder_eq : ∀ place, after.isFolder place = before.isFolder place
  entry_eq : ∀ place, untouched place → after.entry? place = before.entry? place

namespace Leaves

variable {untouched : Place → Prop} {a b c : Disk}

theorem refl (disk : Disk) : Leaves untouched disk disk := ⟨rfl, fun _ => rfl, fun _ _ => rfl⟩

theorem pass (disk : Disk) : Leaves untouched disk disk.pass :=
  ⟨rfl, fun _ => rfl, fun _ _ => rfl⟩

theorem trans (first : Leaves untouched a b) (second : Leaves untouched b c) :
    Leaves untouched a c where
  home_eq := second.home_eq.trans first.home_eq
  isFolder_eq := fun place => (second.isFolder_eq place).trans (first.isFolder_eq place)
  entry_eq := fun place kept => (second.entry_eq place kept).trans (first.entry_eq place kept)

theorem weaken {fewer : Place → Prop} (leaves : Leaves untouched a b)
    (weaker : ∀ place, fewer place → untouched place) : Leaves fewer a b :=
  ⟨leaves.home_eq, leaves.isFolder_eq, fun place kept => leaves.entry_eq place (weaker place kept)⟩

theorem grown (leaves : Leaves untouched a b) : Grown a b :=
  ⟨leaves.home_eq, fun place folder => (leaves.isFolder_eq place).trans folder⟩

theorem grown_symm (leaves : Leaves untouched a b) : Grown b a :=
  ⟨leaves.home_eq.symm, fun place folder => (leaves.isFolder_eq place).symm.trans folder⟩

end Leaves

structure Wrote (before after : Disk) (path : String) (content : Content) (place : Place) :
    Prop where
  located : before.locate path = .place place
  leaves : Leaves (· ≠ place) before after
  entry_eq : after.entry? place = some ⟨content, before.now⟩

theorem wrote_put {disk : Disk} {path : String} {place : Place} (content : Content)
    (located : disk.locate path = .place place) :
    Wrote disk (disk.pass.put place ⟨content, disk.now⟩) path content place where
  located := located
  leaves := ⟨rfl, fun _ => rfl, fun _ differs => (lookup_put _ _ _ _).trans (if_neg differs)⟩
  entry_eq := (lookup_put _ _ _ _).trans (if_pos rfl)

/-- The writing of a file is done, or it stops before it began or half-way. -/
theorem write_cases (disk : Disk) (path : String) (content : Content) :
    (∃ after place, disk.write path content = (.ok (), after) ∧
        Wrote disk after path content place) ∨
      (∃ problem after, disk.write path content = (.error problem, after) ∧
        (after = disk ∨ after = disk.pass)) ∨
      ∃ bytes problem after place, disk.write path content = (.error problem, after) ∧
        disk.mishap? = some (.brokenOff bytes problem) ∧
        Wrote disk after path (content.front bytes) place := by
  unfold write
  split
  · exact .inr (.inl ⟨_, _, rfl, .inl rfl⟩)
  next place located =>
    split
    · exact .inr (.inl ⟨_, _, rfl, .inl rfl⟩)
    split
    · exact .inl ⟨_, place, rfl, wrote_put content located⟩
    · exact .inr (.inl ⟨_, _, rfl, .inr rfl⟩)
    next bytes problem mishap =>
      exact .inr (.inr ⟨bytes, problem, _, place, rfl, mishap, wrote_put _ located⟩)

theorem write_eq_ok {disk after : Disk} {path : String} {content : Content}
    (done : disk.write path content = (.ok (), after)) :
    ∃ place, Wrote disk after path content place := by
  obtain ⟨after', place, writes, wrote⟩ | ⟨problem, after', stopped, -⟩ |
    ⟨bytes, problem, after', place, stopped, -⟩ := disk.write_cases path content
  · obtain rfl : after' = after := congrArg Prod.snd (writes.symm.trans done)
    exact ⟨place, wrote⟩
  · rw [stopped] at done
    cases done
  · rw [stopped] at done
    cases done

/-- Whatever becomes of the writing of a file, it is the only one that changes. -/
theorem leaves_write (disk : Disk) (path : String) (content : Content) :
    Leaves (fun place => disk.locate path ≠ .place place) disk (disk.write path content).2 := by
  have apart {after : Disk} {content : Content} {place : Place}
      (wrote : Wrote disk after path content place) :
      Leaves (fun place => disk.locate path ≠ .place place) disk after :=
    wrote.leaves.weaken fun other differs same => differs (same ▸ wrote.located)
  obtain ⟨after, place, writes, wrote⟩ | ⟨problem, after, stopped, rfl | rfl⟩ |
    ⟨bytes, problem, after, place, stopped, -, wrote⟩ := disk.write_cases path content
  · rw [writes]
    exact apart wrote
  · rw [stopped]
    exact .refl _
  · rw [stopped]
    exact .pass disk
  · rw [stopped]
    exact apart wrote

/-- A path leads to a file. -/
theorem file_eq_ok_iff {disk : Disk} {path : String} {entry : Entry} :
    disk.file path = .ok entry ↔
      ∃ place, disk.locate path = .place place ∧ disk.entry? place = some entry := by
  unfold file
  split
  next place located =>
    rw [located]
    split
    next there => simp [there]
    next missing => simp [missing]
  next located => simp [located]

/-- What is read when a tree has grown was there before, where something was there. -/
theorem Grown.file_of_contains {before after : Disk} (grown : Grown before after)
    (files : after.files = before.files) {path : String} {entry : Entry}
    (there : before.contains path = true) (read : after.file path = .ok entry) :
    before.file path = .ok entry := by
  obtain ⟨place, located', found⟩ := file_eq_ok_iff.mp read
  unfold contains at there
  split at there
  next place' located =>
    obtain rfl : place = place' := Located.place.inj (located'.symm.trans (grown.locate located))
    unfold entry? at found
    rw [files] at found
    exact file_eq_ok_iff.mpr ⟨place, located, found⟩
  next => cases there

end Disk
end Quire
