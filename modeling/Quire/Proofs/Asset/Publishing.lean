import Quire.Example.Snippet
import Quire.Proofs.Asset.Tools

/-! What the publishing of images does to files. It makes the image folder and writes files in it,
whether it fails or not, and nothing else is made or written. -/
namespace Quire

namespace Path

theorem not_mem_split {part cs : List Char} (member : part ∈ split cs) : '/' ∉ part := fun bad =>
  absurd (Text.of_mem_splitChars member bad) (by decide)

theorem plain_of_mem_pieces {path piece : String} (member : piece ∈ pieces path) :
    '/' ∉ piece.toList := by
  rw [pieces_eq] at member
  obtain ⟨chars, part, rfl⟩ := List.mem_map.mp member
  rw [String.toList_ofList]
  exact not_mem_split (List.mem_of_mem_drop part)

theorem split_intercalate {piece : String} {more : List String}
    (plain : ∀ p ∈ piece :: more, '/' ∉ p.toList) :
    split ("/".intercalate (piece :: more)).toList = (piece :: more).map String.toList :=
  Text.splitChars_intercalate plain

/-- A path that is put together has the pieces that it was made of. -/
theorem pieces_ofPieces {absolute : Bool} {piece : String} {more : List String}
    (plain : ∀ p ∈ piece :: more, '/' ∉ p.toList) (relative : absolute = false → piece ≠ "") :
    isAbsolute (ofPieces absolute (piece :: more)) = absolute ∧
      pieces (ofPieces absolute (piece :: more)) = piece :: more := by
  have inner := split_intercalate plain
  cases absolute with
  | true =>
    have chars : (ofPieces true (piece :: more)).toList =
        [] ++ '/' :: ("/".intercalate (piece :: more)).toList := by
      simp [ofPieces]
    have absolute : isAbsolute (ofPieces true (piece :: more)) = true := by
      rw [isAbsolute, chars]
      rfl
    refine ⟨absolute, ?_⟩
    rw [pieces_eq, absolute, chars, split_append, inner]
    simp [Function.comp_def, split, Text.splitChars_nil]
  | false =>
    have same : ofPieces false (piece :: more) = "/".intercalate (piece :: more) := by
      simp [ofPieces]
    have absolute : isAbsolute ("/".intercalate (piece :: more)) = false := by
      obtain ⟨c, cs, chars⟩ :=
        List.exists_cons_of_ne_nil (mt String.toList_eq_nil_iff.mp (relative rfl))
      have other : c ≠ '/' := fun bad =>
        plain piece List.mem_cons_self (by rw [chars, bad]; exact List.mem_cons_self)
      rw [isAbsolute]
      cases more with
      | nil => simpa [chars] using other
      | cons next more => simpa [String.intercalate_cons_cons, chars] using other
    rw [same]
    refine ⟨absolute, ?_⟩
    rw [pieces_eq, absolute, inner]
    simp [Function.comp_def]

theorem fileName?_of_pieces {path name : String} {front : List String} (isName : IsName name)
    (ends : pieces path = front ++ [name]) : fileName? path = some name := by
  have dot : name ≠ "." := by
    rintro rfl
    exact absurd isName.spoken (by decide)
  have last : (parts path).getLast? = some name := by
    rw [parts, ends, List.filter_append, List.filter_cons_of_pos (by simp [isName.spoken])]
    simp
  simp [fileName?, last, dot, isName.down]

theorem fileName?_join (dir : String) {name : String} (isName : IsName name) :
    fileName? (join dir name) = some name := by
  obtain ⟨front, joined, -, -⟩ := exists_pieces_join dir isName.plain
  exact fileName?_of_pieces isName joined

theorem dropSilentEnd_prefix (relative : Bool) (all : List String) :
    dropSilentEnd relative all = ["."] ∨ dropSilentEnd relative all <+: all := by
  unfold dropSilentEnd
  split
  · split
    · exact .inl rfl
    · exact .inr (List.nil_prefix)
  · exact .inr (List.rdropWhile_prefix _ _)

theorem parent?_of_pieces {path name : String} {front : List String} (isName : IsName name)
    (ends : pieces path = front ++ [name]) :
    parent? path =
      some (ofPieces (isAbsolute path) (dropSilentEnd (!isAbsolute path) front)) := by
  have kept : Text.dropEndWhile isSilent (front ++ [name]) = front ++ [name] :=
    List.rdropWhile_concat_neg _ _ _ (by simp [isName.spoken])
  have whole (relative : Bool) : dropSilentEnd relative (front ++ [name]) = front ++ [name] := by
    rw [dropSilentEnd, kept]
    split
    next none => simp at none
    next => rfl
  simp [parent?, ends, whole]

end Path

namespace Disk

theorem enter_foldl_silent (disk : Disk) {silent : List String}
    (quiet : ∀ piece ∈ silent, Path.isSilent piece = true) (start : Located) (name : String) :
    disk.enter (silent.foldl disk.enter start) name = disk.enter start name := by
  induction silent generalizing start with
  | nil => rfl
  | cons piece silent ih =>
    rw [List.foldl_cons, ih fun p member => quiet p (List.mem_cons_of_mem _ member),
      enter_silent _ _ (quiet piece List.mem_cons_self)]

/-- Pieces at the end of a folder that say nothing make no difference. -/
theorem enter_dropSilentEnd (disk : Disk) (relative : Bool) (pieces : List String) (start : Located)
    (name : String) :
    disk.enter ((Path.dropSilentEnd relative pieces).foldl disk.enter start) name =
      disk.enter (pieces.foldl disk.enter start) name := by
  obtain ⟨ends, split, quiet⟩ := dropEndWhile_append_ends Path.isSilent pieces
  unfold Path.dropSilentEnd
  split
  next none =>
    rw [none, List.nil_append] at split
    rw [split, enter_foldl_silent _ quiet]
    split
    · exact disk.enter_silent start (by decide) name
    · rfl
  next kept _ =>
    conv_rhs => rw [split, List.foldl_append, enter_foldl_silent _ quiet]

/-- A folder that is put together from the pieces of a path without its end. -/
theorem enter_ofPieces (disk : Disk) {dir : String} {front : List String}
    (alone : Path.pieces dir = front ∨ Path.pieces dir = front ++ [""]) (name : String) :
    let kept := Path.dropSilentEnd (!Path.isAbsolute dir) front
    disk.enter (disk.position (Path.ofPieces (Path.isAbsolute dir) kept)) name =
      disk.enter (kept.foldl disk.enter (disk.start dir)) name := by
  intro kept
  cases eq : kept with
  | nil =>
    cases absolute : Path.isAbsolute dir with
    | true => simp [start, absolute]; rfl
    | false =>
      have alone : disk.position (Path.ofPieces false []) = disk.enter (.place disk.home) "" := rfl
      simp only [List.foldl_nil, start, absolute, Bool.false_eq_true, if_false, alone]
      exact disk.enter_silent _ (by decide) name
  | cons piece more =>
    have front_prefix : front <+: Path.pieces dir := by
      obtain same | ended := alone
      · exact same ▸ List.prefix_rfl
      · exact ended ▸ List.prefix_append _ _
    have source : piece :: more = ["."] ∨ piece :: more <+: Path.pieces dir := by
      rw [← eq]
      exact (Path.dropSilentEnd_prefix _ front).imp_right (·.trans front_prefix)
    have plain : ∀ p ∈ piece :: more, '/' ∉ p.toList := by
      intro p member
      obtain dot | starts := source
      · obtain rfl : p = "." := by simpa [dot] using member
        decide
      · exact Path.plain_of_mem_pieces (starts.subset member)
    have relative : Path.isAbsolute dir = false → piece ≠ "" := by
      rintro relative rfl
      obtain dot | ⟨ends, starts⟩ := source
      · simp at dot
      by_cases none : dir = ""
      · subst none
        have only : Path.pieces "" = [""] := by decide
        have gone : Path.dropSilentEnd true [] = [] ∧ Path.dropSilentEnd true [""] = [] := by decide
        obtain same | ended := alone
        · obtain rfl : [""] = front := only.symm.trans same
          exact absurd (eq.symm.trans gone.2) (List.cons_ne_nil _ _)
        · obtain rfl : [] = front := by simpa [only] using ended
          exact absurd (eq.symm.trans gone.1) (List.cons_ne_nil _ _)
      · exact Path.head?_pieces relative none (by rw [← starts]; rfl)
    obtain ⟨absolute, pieces⟩ := Path.pieces_ofPieces plain relative
    rw [position, pieces, start, start, absolute]

/-- Another name in the place of the last one leads where it leads behind the folder. -/
theorem position_withFileName (disk : Disk) (dir : String) {name other : String}
    (isName : Path.IsName name) (plain : '/' ∉ other.toList) :
    disk.position (Path.withFileName (Path.join dir name) other) =
      disk.position (Path.join dir other) := by
  obtain ⟨front, joined, alone, absolute⟩ := Path.exists_pieces_join dir isName.plain
  have named := Path.fileName?_of_pieces isName joined
  have parent := Path.parent?_of_pieces isName joined
  rw [Path.withFileName, named, if_pos (by rfl), parent, Option.getD_some, position_join _ _ plain,
    position_join _ _ plain, absolute]
  have folder : disk.enter (disk.position dir) other =
      disk.enter (front.foldl disk.enter (disk.start dir)) other := by
    rw [position]
    obtain same | ended := alone
    · rw [same]
    · rw [ended, List.foldl_append]
      exact disk.enter_silent _ (by decide) other
  rw [folder, ← enter_dropSilentEnd disk (!Path.isAbsolute dir) front]
  exact disk.enter_ofPieces alone other

theorem locate_withFileName {disk : Disk} {dir name other : String} {place : Place}
    (isName : Path.IsName name) (isName' : Path.IsName other)
    (located : disk.locate (Path.withFileName (Path.join dir name) other) = .place place) :
    ∃ folder, disk.position dir = .place folder ∧ place = folder ++ [other] := by
  have reached := locate_eq_place located
  rw [disk.position_withFileName dir isName isName'.plain,
    disk.position_join dir isName'.plain] at reached
  exact enter_eq_place isName' reached

end Disk

namespace Path

theorem isName_of_fileName? {path name : String} (found : fileName? path = some name) :
    IsName name := by
  unfold fileName? at found
  split at found
  next last ends =>
    split at found
    · cases found
    next other =>
      obtain rfl := Option.some.inj found
      obtain ⟨dot, down⟩ := not_or.mp (by simpa using other)
      have member := List.mem_of_getLast? ends
      rw [parts] at member
      obtain lead | member := List.mem_append.mp member
      · refine absurd ?_ dot
        split at lead
        · exact List.mem_singleton.mp lead
        · cases lead
      · obtain ⟨member, spoken⟩ := List.mem_filter.mp member
        exact ⟨plain_of_mem_pieces member, by simpa using spoken, down⟩
  next => cases found

/-- A text with a file extension is a name when it goes through no folder. -/
theorem isName_append {stem ending : String} (plain : '/' ∉ stem.toList)
    (plain' : '/' ∉ ending.toList) (long : 2 < ending.toList.length) : IsName (stem ++ ending) := by
  have differs (short : String) (few : short.toList.length ≤ 2) : stem ++ ending ≠ short := by
    rintro rfl
    simp only [String.toList_append, List.length_append] at few
    omega
  refine ⟨by simp [plain, plain'], ?_, differs ".." (by decide)⟩
  have dot := differs "." (by decide)
  have empty := differs "" (by decide)
  simp only [isSilent, Bool.or_eq_false_iff]
  exact ⟨by simpa [String.isEmpty_iff] using empty, beq_eq_false_iff_ne.mpr dot⟩

theorem plain_cutName {name : String} (plain : '/' ∉ name.toList) :
    '/' ∉ (cutName name).1.toList := by
  unfold cutName
  split
  next last front eq =>
    dsimp only
    split
    · exact plain
    · refine Text.not_mem_intercalate (by decide) fun piece member bad => plain ?_
      have among : piece ∈ Text.splitOn '.' name := by
        rw [← List.mem_reverse, eq]
        exact List.mem_cons_of_mem _ (List.mem_reverse.mp member)
      obtain ⟨chars, part, rfl⟩ := List.mem_map.mp among
      rw [String.toList_ofList] at bad
      exact Text.subset_of_mem_splitChars part bad
  next => exact plain

end Path

namespace Path

/-- The last piece that a path was put together from is its last piece. -/
theorem exists_pieces_ofPieces (absolute : Bool) (front : List String) {last : String}
    (plain : '/' ∉ last.toList) :
    ∃ before, pieces (ofPieces absolute (front ++ [last])) = before ++ [last] := by
  have behind (as : List Char)
      (chars : (ofPieces absolute (front ++ [last])).toList = as ++ '/' :: last.toList) :
      ∃ before, pieces (ofPieces absolute (front ++ [last])) = before ++ [last] :=
    ⟨_, (pieces_append chars plain).trans (by rw [String.ofList_toList])⟩
  by_cases none : front = []
  · subst none
    cases absolute with
    | true => exact behind [] (by simp [ofPieces])
    | false =>
      obtain ⟨before, joined, -⟩ := exists_pieces_join "" plain
      have same : ofPieces false ([] ++ [last]) = join "" last := by simp [ofPieces, join]
      exact ⟨before, same ▸ joined⟩
  · have parts : "/".intercalate (front ++ [last]) = "/".intercalate front ++ "/" ++ last := by
      rw [String.intercalate_append_of_ne_nil none (List.cons_ne_nil _ _),
        String.intercalate_singleton]
    refine behind ((if absolute then "/" else "") ++ "/".intercalate front).toList ?_
    simp [ofPieces, parts, String.append_assoc]

/-- A path without a piece that says anything names no file. -/
theorem fileName?_of_dropSilentEnd {path : String}
    (none : dropSilentEnd (!isAbsolute path) (pieces path) = []) : fileName? path = .none := by
  unfold dropSilentEnd at none
  split at none
  next silent =>
    obtain ⟨ends, split, quiet⟩ := Disk.dropEndWhile_append_ends isSilent (pieces path)
    rw [silent, List.nil_append] at split
    have kept : (pieces path).filter (!isSilent ·) = [] :=
      List.filter_eq_nil_iff.mpr fun piece member => by
        simp [quiet piece (split ▸ member)]
    have parts : parts path = [] := by
      rw [Path.parts, kept]
      split
      next dot => rw [if_pos dot] at none; cases none
      next => rfl
    simp [fileName?, parts]
  next kept => exact absurd none kept

/-- The file that a path with an extension names has that extension. -/
theorem fileName?_withExtension {path name : String}
    (named : fileName? (withExtension path "png") = some name) : ∃ stem, name = stem ++ ".png" := by
  unfold withExtension at named
  generalize cutExtension path = cut at named
  dsimp only at named
  split at named
  next stem last front stemmed _ =>
    obtain ⟨whole, found, rfl⟩ : ∃ whole, fileName? cut = some whole ∧ (cutName whole).1 = stem := by
      simpa [stem?] using stemmed
    have joined : (cutName whole).1 ++ "." ++ "png" = (cutName whole).1 ++ ".png" := by
      rw [String.append_assoc]
      rfl
    have isName : IsName ((cutName whole).1 ++ ".png") :=
      isName_append (plain_cutName (isName_of_fileName? found).plain) (by decide) (by decide)
    obtain ⟨before, ends⟩ :=
      exists_pieces_ofPieces (isAbsolute cut) front.reverse isName.plain
    rw [joined, fileName?_of_pieces isName ends] at named
    exact ⟨_, (Option.some.inj named).symm⟩
  next other =>
    have stemmed : stem? cut = some (cutName name).1 := by rw [stem?, named]; rfl
    cases front : (dropSilentEnd (!isAbsolute cut) (pieces cut)).reverse with
    | nil =>
      rw [fileName?_of_dropSilentEnd (List.reverse_eq_nil_iff.mp front)] at named
      cases named
    | cons last front' => exact absurd front (other _ _ _ stemmed)

end Path

namespace Asset

/-- A place with the name of a picture that a program makes. -/
def IsPicture (place : Place) : Prop := ∃ folder stem, place = folder ++ [stem ++ ".png"]

/-- A place of an image: in the image folder, or with the name of a picture. -/
def Store.Holds (store : Store) (disk : Disk) (place : Place) : Prop :=
  (∃ folder name, disk.position store.imageDir = .place folder ∧ place = folder ++ [name]) ∨
    IsPicture place

/-- Where the image folder is there and the tools keep to their task, images are written and no
other file is. -/
def Publishes (store : Store) (before after : Disk) : Prop :=
  store.tools.Neat → before.HasFolders store.imageDir →
    Disk.Leaves (¬ store.Holds before ·) before after

def Job.Publishes {α : Type} (store : Store) (job : Job α) : Prop :=
  ∀ disk, Asset.Publishes store disk (job disk).2

variable {store : Store} {α : Type} {disk before middle after : Disk}

theorem Store.Holds.of_grown (grown : Disk.Grown before after) {place : Place}
    (holds : store.Holds before place) : store.Holds after place := by
  obtain ⟨folder, name, at_, rfl⟩ | picture := holds
  · exact .inl ⟨folder, name, grown.position at_, rfl⟩
  · exact .inr picture

namespace Publishes

theorem refl (disk : Disk) : Publishes store disk disk := fun _ _ => .refl disk

theorem trans (first : Publishes store before middle) (second : Publishes store middle after) :
    Publishes store before after := by
  intro neat has
  have leaves := first neat has
  refine leaves.trans ((second neat (has.of_grown leaves.grown)).weaken fun place apart holds => ?_)
  exact apart (holds.of_grown leaves.grown_symm)

theorem write {path : String} (content : Content)
    (inside : ∀ place, disk.locate path = .place place → store.Holds disk place) :
    Publishes store disk (disk.write path content).2 :=
  fun _ _ => (disk.leaves_write path content).weaken fun place apart located =>
    apart (inside place located)

/-- Where the image folder is there, it is not made. -/
theorem folders (rest : disk.makeFolders store.imageDir = (.ok (), disk) →
    Publishes store disk after) : Publishes store disk after :=
  fun neat has => rest has.makeFolders neat has

end Publishes

theorem holds_of_name {name : String} (isName : Path.IsName name) (place : Place)
    (located : disk.locate (Path.join store.imageDir name) = .place place) :
    store.Holds disk place := by
  obtain ⟨folder, at_, rfl⟩ := Disk.locate_join isName located
  exact .inl ⟨folder, name, at_, rfl⟩

/-- A file beside an image is in the image folder, too. -/
theorem holds_of_beside {name other : String} (isName : Path.IsName name)
    (isName' : Path.IsName other) (place : Place)
    (located : disk.locate (Path.withFileName (Path.join store.imageDir name) other) =
      .place place) :
    store.Holds disk place := by
  obtain ⟨folder, at_, rfl⟩ := Disk.locate_withFileName isName isName' located
  exact .inl ⟨folder, other, at_, rfl⟩

theorem isName_thumbnail (path : String) :
    Path.IsName ((Path.stem? path).getD "" ++ "_thumb.png") := by
  refine Path.isName_append ?_ (by decide) (by decide)
  unfold Path.stem?
  cases named : Path.fileName? path with
  | none => exact List.not_mem_nil
  | some name => exact Path.plain_cutName (Path.isName_of_fileName? named).plain

/-! What each job does to files. -/

theorem copied_cases (disk : Disk) (source target : String) (content : Content) :
    copied disk source target content = .text "" ∨
      copied disk source target content = content := by
  unfold copied
  split
  · exact ite_eq_or_eq _ _ _
  · exact .inr rfl

theorem copy_cases (source target : String) (disk : Disk) :
    (∃ fault, copy source target disk = (.error fault, disk)) ∨
      ∃ entry content, disk.file source = .ok entry ∧
        (content = .text "" ∨ content = entry.content) ∧
        (copy source target disk).2 = (disk.write target content).2 ∧
        ((copy source target disk).1 = .ok () → (disk.write target content).1 = .ok ()) := by
  unfold copy
  split
  · exact .inl ⟨_, rfl⟩
  next entry read =>
    refine .inr ⟨entry, _, read, copied_cases disk source target entry.content, ?_⟩
    split
    next after done => simp [done]
    next problem after failed => simp [failed]

/-- The path of the thumbnail beside an image. -/
def thumbnailPath (path : String) : String :=
  Path.withFileName path ((Path.stem? path).getD "" ++ "_thumb.png")

/-- A tree after a thumbnail was made where there was none, as far as it came. -/
def Thumbed (path : String) (before after : Disk) : Prop :=
  after = before ∨ ∃ content, after = (before.write (thumbnailPath path) content).2

theorem thumbnail_cases (store : Store) (path : String) (disk : Disk) :
    Thumbed path disk (thumbnail store path disk).2 ∧
      ∀ thumb, (thumbnail store path disk).1 = .ok thumb →
        ∃ opened, openPicture store disk path = .ok opened := by
  unfold thumbnail
  split
  · exact ⟨.inl rfl, nofun⟩
  next content width height opened =>
    refine ⟨?_, fun _ _ => ⟨_, opened⟩⟩
    split
    · exact .inl rfl
    dsimp only
    split
    · exact .inl rfl
    refine .inr ⟨store.tools.shrink store.thumbnailSize content, ?_⟩
    split
    next after done => rw [thumbnailPath, done]
    next problem after failed => rw [thumbnailPath, failed]; rfl

theorem refer_cases (store : Store) (path : String) (disk : Disk) :
    Thumbed path disk (refer store path disk).2 ∧
      ∀ image, (refer store path disk).1 = .ok image →
        image.src = "img/" ++ fileName path ∧
          ∃ opened, openPicture store disk path = .ok opened := by
  have thumb := thumbnail_cases store path disk
  unfold refer
  split
  next result after done =>
    rw [done] at thumb
    refine ⟨thumb.1, fun image eq => ?_⟩
    obtain rfl := Except.ok.inj eq
    exact ⟨rfl, thumb.2 _ rfl⟩
  next fault after failed =>
    rw [failed] at thumb
    exact ⟨thumb.1, nofun⟩

theorem publishes_refer {name : String} (isName : Path.IsName name) :
    Job.Publishes store (refer store (Path.join store.imageDir name)) := by
  intro disk
  obtain ⟨same | ⟨content, wrote⟩, -⟩ := refer_cases store (Path.join store.imageDir name) disk
  · rw [same]
    exact .refl disk
  · rw [wrote]
    exact .write content (holds_of_beside isName (isName_thumbnail _))

theorem publishes_copy (source : String) {name : String} (isName : Path.IsName name) :
    Job.Publishes store (copy source (Path.join store.imageDir name)) := by
  intro disk
  obtain ⟨fault, stopped⟩ | ⟨entry, content, -, -, files, -⟩ :=
    copy_cases source (Path.join store.imageDir name) disk
  · rw [stopped]
    exact .refl disk
  · rw [files]
    exact .write content (holds_of_name isName)

theorem publishes_publishFile (source : String) :
    Job.Publishes store (publishFile store source) := by
  intro disk
  refine .folders fun made => ?_
  unfold publishFile
  split
  · exact .refl disk
  split
  · exact .refl disk
  next name named =>
    have isName := Path.isName_of_fileName? named
    have copies : Publishes store disk _ := publishes_copy source isName disk
    rw [made]
    dsimp only
    split
    next fault after failed => rwa [failed] at copies
    next after done =>
      rw [done] at copies
      exact copies.trans (publishes_refer isName after)

/-- The tree after a program that did not start is the tree before. -/
theorem command_cases (store : Store) (cmd : Command) (disk : Disk) :
    (command store cmd disk).2 = disk ∨
      (command store cmd disk).2 = (store.tools.run cmd store.timeout disk).2 := by
  unfold command
  split
  · exact .inl rfl
  · exact .inr rfl

theorem isPicture_of_mayMake {target : String} {place : Place}
    (named : ∀ name, Path.fileName? target = some name → ∃ stem, name = stem ++ ".png")
    (made : MayMake disk target place) : IsPicture place := by
  obtain ⟨folder, name, -, name_eq, rfl | ⟨n, rfl⟩⟩ := made
  · obtain ⟨stem, rfl⟩ := named name name_eq
    exact ⟨folder, stem, rfl⟩
  · exact ⟨folder, _, rfl⟩

/-- A figure is converted to a picture. -/
theorem leaves_convert (neat : store.tools.Neat) (source : String) {target : String}
    (named : ∀ name, Path.fileName? target = some name → ∃ stem, name = stem ++ ".png")
    (disk : Disk) :
    Disk.Leaves (¬ IsPicture ·) disk (command store (.convert source target) disk).2 := by
  obtain same | ran := command_cases store (.convert source target) disk
  · rw [same]
    exact .refl disk
  · rw [ran]
    exact (neat.convert source target store.timeout disk).weaken fun _ apart made =>
      apart (isPicture_of_mayMake named made)

theorem publishes_publish (path : String) : Job.Publishes store (publish store path) := by
  intro disk
  unfold publish
  dsimp only
  split
  · split
    · exact publishes_publishFile _ disk
    have converts : Publishes store disk (command store
        (.convert (Path.join store.base path)
          (Path.withExtension (Path.join store.base path) "png")) disk).2 := fun neat _ =>
      (leaves_convert neat _ (fun _ => Path.fileName?_withExtension) disk).weaken
        fun _ apart picture => apart (.inr picture)
    split
    next fault after failed => rwa [failed] at converts
    next after done =>
      rw [done] at converts
      exact converts.trans (publishes_publishFile _ after)
  · exact publishes_publishFile _ disk

theorem plain_toDigits (n : Nat) : '/' ∉ Nat.toDigits 16 n := by
  have digit : ∀ n < 16, '/' ≠ Nat.digitChar n := by decide
  have core (fuel n : Nat) (digits : List Char) (plain : '/' ∉ digits) :
      '/' ∉ Nat.toDigitsCore 16 fuel n digits := by
    induction fuel generalizing n digits with
    | zero => exact plain
    | succ fuel ih =>
      have more : '/' ∉ Nat.digitChar (n % 16) :: digits :=
        List.not_mem_cons_of_ne_of_not_mem (digit _ (Nat.mod_lt n (by decide))) plain
      rw [Nat.toDigitsCore]
      split
      · exact more
      · exact ih _ _ more
  exact core _ _ _ List.not_mem_nil

theorem plain_hex (source : String) : '/' ∉ (Digest.hex source).toList := by
  simp [Digest.hex, plain_toDigits]

theorem isName_drawingName (source : String) {name : String} (plain : '/' ∉ name.toList) :
    Path.IsName (drawingName source name) :=
  Path.isName_append (by simp [plain, plain_hex]) (by decide) (by decide)

section Scratch
variable {folder target : String} {inner : Place}

theorem isName_figure : Path.IsName "figure.tex" := ⟨by decide, by decide, by decide⟩

/-- A drawing is compiled in its folder, and its picture goes elsewhere. -/
theorem spares_compile (neat : store.tools.Neat) (source : String)
    (named : ∀ name, Path.fileName? target = some name → ∃ stem, name = stem ++ ".png")
    (located : disk.locate folder = .place inner) :
    Disk.Spares inner (¬ IsPicture ·) disk (compile store source target folder disk).2 ∧
      ((compile store source target folder disk).2.isFolder inner = disk.isFolder inner) := by
  have figure := disk.leaves_write (Path.join folder "figure.tex") (.text (drawingText source))
  have writes : Disk.Spares inner (¬ IsPicture ·) disk
      (disk.write (Path.join folder "figure.tex") (.text (drawingText source))).2 := by
    refine figure.spares fun place apart _ at_ => apart ?_
    obtain ⟨folder', at_', rfl⟩ := Disk.locate_join isName_figure at_
    obtain rfl := Located.place.inj ((Disk.locate_eq_place located).symm.trans at_')
    exact List.prefix_append _ _
  unfold compile
  split
  next problem written failed =>
    rw [failed] at writes figure
    exact ⟨writes, figure.isFolder_eq inner⟩
  next written done =>
    rw [done] at writes figure
    have located' := figure.grown.locate located
    have sets : Disk.Spares inner (¬ IsPicture ·) written
          (command store (.typeset folder) written).2 ∧
        (command store (.typeset folder) written).2.isFolder inner = written.isFolder inner := by
      obtain same | ran := command_cases store (.typeset folder) written
      · rw [same]
        exact ⟨⟨rfl, fun _ _ => rfl, fun _ _ _ => rfl⟩, rfl⟩
      · rw [ran]
        have runs := neat.typeset folder inner store.timeout written located'
        exact ⟨runs.1.weaken fun _ _ => trivial, runs.2⟩
    have folder_eq := sets.2.trans (figure.isFolder_eq inner)
    split
    next fault set failed =>
      rw [failed] at sets folder_eq
      exact ⟨writes.trans sets.1, folder_eq⟩
    next set done =>
      rw [done] at sets folder_eq
      have converts := leaves_convert neat (Path.join folder "figure.pdf") named set
      exact ⟨(writes.trans sets.1).trans (converts.spares fun _ _ apart => apart),
        (converts.isFolder_eq inner).trans folder_eq⟩

theorem leaves_inScratch (neat : store.tools.Neat) (source : String)
    (named : ∀ name, Path.fileName? target = some name → ∃ stem, name = stem ++ ".png")
    (disk : Disk) :
    Disk.Leaves (¬ IsPicture ·) disk (inScratch store (compile store source target) disk).2 := by
  unfold inScratch
  dsimp only
  obtain ⟨problem, failed⟩ | ⟨problem, failed⟩ | ⟨made, inner, makes, fresh⟩ :=
    disk.makeFolder_cases (store.tools.scratch disk)
  · rw [failed]
    exact .refl disk
  · rw [failed]
    exact .pass disk
  · rw [makes]
    dsimp only
    obtain ⟨spares, folder_eq⟩ := spares_compile neat source named fresh.locate
    have kept : Disk.Spares inner (¬ IsPicture ·) disk
        (compile store source target (store.tools.scratch disk) made).2 :=
      fresh.spares.trans spares
    have unused := neat.scratch disk made inner fresh
    have grown : Disk.Grown made
        (compile store source target (store.tools.scratch disk) made).2 := by
      refine ⟨spares.home_eq, fun place folder => ?_⟩
      by_cases below : inner <+: place
      · obtain rfl : place = inner := by
          simpa [fresh.isFolder_eq, (unused place below).1] using folder
        rw [folder_eq, folder]
      · rw [spares.isFolder_eq place below, folder]
    exact Disk.leaves_removeFolder unused (grown.locate fresh.locate) kept

end Scratch

theorem publishes_publishDrawing (source : String) {name : String} (plain : '/' ∉ name.toList) :
    Job.Publishes store (publishDrawing store source name) := by
  intro disk
  have isName := isName_drawingName source plain
  refine .folders fun made => ?_
  unfold publishDrawing
  rw [made]
  dsimp only
  split
  · exact publishes_refer isName disk
  have named : ∀ found, Path.fileName? (Path.join store.imageDir (drawingName source name)) =
      some found → ∃ stem, found = stem ++ ".png" := by
    intro found eq
    rw [Path.fileName?_join _ isName] at eq
    exact ⟨name ++ "-" ++ Digest.hex source, (Option.some.inj eq).symm⟩
  have compiles : Publishes store disk (inScratch store
      (compile store source (Path.join store.imageDir (drawingName source name))) disk).2 :=
    fun neat _ => (leaves_inScratch neat source named disk).weaken
      fun _ apart picture => apart (.inr picture)
  split
  next fault after failed => rwa [failed] at compiles
  next after done =>
    rw [done] at compiles
    exact compiles.trans (publishes_refer isName after)

theorem publishes_looking (read : Disk → Except RenderFault α) :
    Job.Publishes store (looking read) := fun disk => .refl disk

end Asset

namespace Example.Snippet

open Asset (Job)

variable {store : Asset.Store}

theorem publishes_output (store : Asset.Store) (dir stem : String) (format : Format) :
    Job.Publishes store (output dir store stem format) := by
  intro disk
  unfold output
  dsimp only
  split
  · exact .refl disk
  · exact .refl disk
  · split
    · exact Asset.publishes_publishFile _ disk
    · exact .refl disk

theorem publishes_outputs (dir base : String) (captioned : Bool) (format : Format)
    (langs : List Lang) : Job.Publishes store (outputs dir store base captioned format langs) := by
  induction langs with
  | nil => exact fun disk => .refl disk
  | cons lang langs ih =>
    intro disk
    have first := publishes_output store dir (base ++ "." ++ lang.extension) format disk
    unfold outputs
    split
    next fault after failed => rwa [failed] at first
    next body after done =>
      rw [done] at first
      exact .trans first (ih after)

theorem publishes_compose (dir : String) (request : Request) :
    Job.Publishes store (compose dir store request) := by
  intro disk
  unfold compose
  split
  · exact .refl disk
  · exact publishes_outputs _ _ _ _ _ disk

end Example.Snippet

end Quire
