import Quire.Proofs.Asset.Publishing

/-! The names of published images. All images of a book go into one folder, each under the file name
of its source, so two references are equal exactly when the file names are. What was published under
a name stays there until an image of that name, or a thumbnail of that name, is written. -/
namespace Quire

namespace Path

/-- A file name that is cut is its stem, a dot and its extension. -/
theorem cutName_cases (name : String) :
    cutName name = (name, none) ∨
      ∃ stem ending, cutName name = (stem, some ending) ∧ name = stem ++ "." ++ ending := by
  unfold cutName
  split
  next last front backwards =>
    dsimp only
    split
    · exact .inl rfl
    next some =>
      refine .inr ⟨_, _, rfl, ?_⟩
      have parts : Text.splitOn '.' name = front.reverse ++ [last] := by
        rw [← List.reverse_cons, ← backwards, List.reverse_reverse]
      have many : front.reverse ≠ [] := fun none => some (by rw [none]; rfl)
      calc name
        _ = ".".intercalate (Text.splitOn '.' name) := (Text.intercalate_splitOn '.' name).symm
        _ = ".".intercalate front.reverse ++ "." ++ ".".intercalate [last] := by
          rw [parts, String.intercalate_append_of_ne_nil many (List.cons_ne_nil _ _)]
        _ = ".".intercalate front.reverse ++ "." ++ last := by rw [String.intercalate_singleton]
  next => exact .inl rfl

end Path

namespace Asset

variable {store : Store} {disk before after : Disk} {name : String}

/-- The name of the thumbnail beside an image. -/
def thumbnailName (name : String) : String := (Path.cutName name).1 ++ "_thumb.png"

theorem thumbnailName_ne (name : String) : thumbnailName name ≠ name := by
  obtain whole | ⟨stem, ending, cut, split⟩ := Path.cutName_cases name
  · have longer : (name ++ "_thumb.png").toList.length ≠ name.toList.length := by simp
    rw [thumbnailName, whole]
    exact fun same => longer (by rw [same])
  · rw [thumbnailName, cut]
    intro same
    have ends := congrArg String.toList (same.trans split)
    simp only [String.toList_append, List.append_assoc, List.append_cancel_left_eq] at ends
    have first := congrArg List.head? ends
    simp at first

/-- In the image folder only files of some names change. -/
structure Keeps (store : Store) (taken : String → Prop) (before after : Disk) : Prop where
  grown : Disk.Grown before after
  file_eq : ∀ name entry, Path.IsName name → ¬ taken name →
    before.file (Path.join store.imageDir name) = .ok entry →
    after.file (Path.join store.imageDir name) = .ok entry

namespace Keeps

variable {taken more : String → Prop}

theorem refl (disk : Disk) : Keeps store taken disk disk := ⟨.refl disk, fun _ _ _ _ there => there⟩

theorem trans {a b c : Disk} (first : Keeps store taken a b) (second : Keeps store taken b c) :
    Keeps store taken a c :=
  ⟨first.grown.trans second.grown, fun name entry isName other there =>
    second.file_eq name entry isName other (first.file_eq name entry isName other there)⟩

theorem weaken (keeps : Keeps store taken before after) (fewer : ∀ name, taken name → more name) :
    Keeps store more before after :=
  ⟨keeps.grown, fun name entry isName other =>
    keeps.file_eq name entry isName (mt (fewer name) other)⟩

theorem of_leaves {untouched : Place → Prop} (leaves : Disk.Leaves untouched before after)
    (apart : ∀ folder name, ¬ taken name → before.position store.imageDir = .place folder →
      untouched (folder ++ [name])) : Keeps store taken before after := by
  refine ⟨leaves.grown, fun name entry isName other there => ?_⟩
  obtain ⟨place, located, found⟩ := Disk.file_eq_ok_iff.mp there
  obtain ⟨folder, at_, rfl⟩ := Disk.locate_join isName located
  have same := leaves.entry_eq _ (apart folder name other at_)
  exact Disk.file_eq_ok_iff.mpr ⟨_, leaves.grown.locate located, same.trans found⟩

theorem hasFolders (keeps : Keeps store taken before after) {path : String}
    (has : before.HasFolders path) : after.HasFolders path :=
  has.of_grown keeps.grown

end Keeps

theorem keeps_write {path : String} (content : Content)
    (inside : ∀ place, disk.locate path = .place place →
      ∃ folder, disk.position store.imageDir = .place folder ∧ place = folder ++ [name]) :
    Keeps store (· = name) disk (disk.write path content).2 := by
  refine .of_leaves (disk.leaves_write path content) fun folder other differs at_ located => ?_
  obtain ⟨folder', at_', same⟩ := inside _ located
  obtain rfl := Located.place.inj (at_.symm.trans at_')
  exact differs (List.singleton_inj.mp (List.append_cancel_left same))

/-- The thumbnail of an image is written beside it. -/
theorem keeps_of_thumbed (isName : Path.IsName name)
    (thumbed : Thumbed (Path.join store.imageDir name) before after) :
    Keeps store (· = thumbnailName name) before after := by
  have target : thumbnailPath (Path.join store.imageDir name) =
      Path.withFileName (Path.join store.imageDir name) (thumbnailName name) := by
    rw [thumbnailPath, Path.stem?, Path.fileName?_join _ isName]
    rfl
  have isName' : Path.IsName (thumbnailName name) :=
    Path.isName_append (Path.plain_cutName isName.plain) (by decide) (by decide)
  obtain rfl | ⟨content, rfl⟩ := thumbed
  · exact .refl _
  · rw [target]
    exact keeps_write content fun _ => Disk.locate_withFileName isName isName'

/-- The names of the files that an image is published in. -/
def FileName (source name : String) : Prop :=
  ∃ whole, Path.fileName? source = some whole ∧ (name = whole ∨ name = thumbnailName whole)

/-- Whether it fails or not, publishing an image leaves the images of other names as they are. -/
theorem keeps_publishFile (source : String) (has : disk.HasFolders store.imageDir) :
    Keeps store (FileName source) disk (publishFile store source disk).2 := by
  unfold publishFile
  split
  · exact .refl disk
  split
  · exact .refl disk
  next name named =>
    have isName := Path.isName_of_fileName? named
    have copies : Keeps store (FileName source) disk
        (copy source (Path.join store.imageDir name) disk).2 := by
      obtain ⟨fault, stopped⟩ | ⟨entry, content, -, -, files, -⟩ :=
        copy_cases source (Path.join store.imageDir name) disk
      · rw [stopped]
        exact .refl disk
      · rw [files]
        refine (keeps_write content fun _ => Disk.locate_join isName).weaken ?_
        rintro _ rfl
        exact ⟨_, named, .inl rfl⟩
    rw [has.makeFolders]
    dsimp only
    split
    next fault after failed => rwa [failed] at copies
    next after done =>
      rw [done] at copies
      have thumbed := (refer_cases store (Path.join store.imageDir name) after).1
      refine copies.trans ((keeps_of_thumbed isName thumbed).weaken ?_)
      rintro _ rfl
      exact ⟨name, named, .inr rfl⟩

/-- The file of a name in the image folder holds what a source held before. -/
def Shows (store : Store) (before after : Disk) (source name : String) : Prop :=
  ∃ content written written', before.file source = .ok ⟨content, written⟩ ∧
    after.file (Path.join store.imageDir name) = .ok ⟨content, written'⟩

structure Published (store : Store) (before after : Disk) (source name : String)
    (image : ImageRef) : Prop where
  named : Path.fileName? source = some name
  src_eq : image.src = "img/" ++ name
  has : after.HasFolders store.imageDir
  shows : Shows store before after source name

theorem copy_eq_ok {source target : String} (done : copy source target disk = (.ok (), after)) :
    ∃ entry content, disk.file source = .ok entry ∧ (content = .text "" ∨ content = entry.content) ∧
      disk.write target content = (.ok (), after) := by
  obtain ⟨fault, stopped⟩ | ⟨entry, content, read, either, files, ok⟩ :=
    copy_cases source target disk
  · rw [stopped] at done
    cases done
  · rw [done] at files ok
    exact ⟨entry, content, read, either, Prod.ext (ok rfl) files.symm⟩

theorem publishFile_eq_ok {source : String} {image : ImageRef} (neat : store.tools.Neat)
    (done : publishFile store source disk = (.ok image, after)) :
    ∃ name, Published store disk after source name image := by
  unfold publishFile at done
  split at done
  · cases done
  next there =>
  split at done
  · cases done
  next name named =>
  have isName := Path.isName_of_fileName? named
  split at done
  · cases done
  next made makes =>
  obtain ⟨has, grown, files⟩ := Disk.makeFolders_eq_ok makes
  dsimp only at done
  split at done
  · cases done
  next copied copies =>
  obtain ⟨entry, content, read, either, writes⟩ := copy_eq_ok copies
  obtain ⟨place, wrote⟩ := Disk.write_eq_ok writes
  obtain ⟨thumbed, answer⟩ := refer_cases store (Path.join store.imageDir name) copied
  rw [done] at thumbed answer
  obtain ⟨src, opened, opens⟩ := answer image rfl
  rw [fileName, Path.fileName?_join _ isName, Option.getD_some] at src
  have keeps := keeps_of_thumbed isName thumbed
  have inside : copied.file (Path.join store.imageDir name) = .ok ⟨content, made.now⟩ :=
    Disk.file_eq_ok_iff.mpr ⟨place, wrote.leaves.grown.locate wrote.located, wrote.entry_eq⟩
  refine ⟨name, named, src, keeps.hasFolders (has.of_grown wrote.leaves.grown), ?_⟩
  obtain rfl | rfl := either
  · unfold openPicture at opens
    rw [inside] at opens
    dsimp only at opens
    split at opens
    · cases opens
    next width height measured => exact absurd measured (neat.measure _ _)
  · exact ⟨entry.content, entry.written, made.now,
      grown.file_of_contains files (by simpa using there) read,
      keeps.file_eq name _ isName (thumbnailName_ne name).symm inside⟩

inductive Call
  /-- An image that a source names. -/
  | image (path : String)
  | file (source : String)

namespace Call

def run (store : Store) : Call → Job ImageRef
  | image path => publish store path
  | file source => publishFile store source

/-- The file that is copied. For a figure that pages cannot show it is the picture beside it. -/
def source (store : Store) : Call → String
  | image path =>
    let source := Path.join store.base path
    if isVector source then Path.withExtension source "png" else source
  | file source => source

/-- The tree when the file is copied. The picture beside a figure may have been made just then. -/
def prepared (store : Store) (disk : Disk) : Call → Disk
  | image path =>
    let source := Path.join store.base path
    let png := Path.withExtension source "png"
    if isVector source && !disk.isFresh png source then
      (command store (.convert source png) disk).2
    else disk
  | file _ => disk

/-- The names of the files that a call may change in the image folder. -/
def Takes (store : Store) (call : Call) (name : String) : Prop :=
  FileName (call.source store) name ∨
    ∃ whole, Path.fileName? (call.source store) = some whole ∧ ∃ n : Nat, name = pageName whole n

theorem Takes.stem {call : Call} {name : String} (takes : call.Takes store name) :
    ∃ whole, Path.fileName? (call.source store) = some whole ∧
      (name = whole ∨ (Path.cutName whole).1.toList <+: name.toList) := by
  obtain ⟨whole, found, rfl | rfl⟩ | ⟨whole, found, n, rfl⟩ := takes
  · exact ⟨_, found, .inl rfl⟩
  · exact ⟨whole, found, .inr (by simp [thumbnailName])⟩
  · exact ⟨whole, found, .inr (by simp [pageName])⟩

theorem run_cases (store : Store) (call : Call) (disk : Disk) :
    (∃ fault, call.run store disk = (.error fault, call.prepared store disk)) ∨
      call.run store disk = publishFile store (call.source store) (call.prepared store disk) := by
  cases call with
  | file source => exact .inr rfl
  | image path =>
    simp only [run, publish, source, prepared]
    generalize Path.join store.base path = source
    cases isVector source with
    | false => simp
    | true =>
      cases disk.isFresh (Path.withExtension source "png") source with
      | true => simp
      | false =>
        simp only [Bool.false_eq_true, Bool.not_false, Bool.and_self, if_true, if_false]
        split
        next fault after failed => exact .inl ⟨fault, by rw [failed]⟩
        next after done => exact .inr (by rw [done])

theorem run_eq_ok {call : Call} {image : ImageRef} (neat : store.tools.Neat)
    (done : call.run store disk = (.ok image, after)) :
    ∃ name, Published store (call.prepared store disk) after (call.source store) name image := by
  obtain ⟨fault, stopped⟩ | same := call.run_cases store disk
  · rw [stopped] at done
    cases done
  · exact publishFile_eq_ok neat (same.symm.trans done)

theorem keeps_prepared (neat : store.tools.Neat) (call : Call) (disk : Disk) :
    Keeps store (call.Takes store) disk (call.prepared store disk) := by
  cases call with
  | file source => exact .refl disk
  | image path =>
    simp only [prepared]
    split
    next converts =>
      obtain same | ran := command_cases store
        (.convert (Path.join store.base path) (Path.withExtension (Path.join store.base path) "png"))
        disk
      · rw [same]
        exact .refl disk
      rw [ran]
      refine .of_leaves (neat.convert _ _ _ disk) fun folder name other _ made => other ?_
      have vector : isVector (Path.join store.base path) = true := by simp_all
      have source : source store (.image path) =
          Path.withExtension (Path.join store.base path) "png" := if_pos vector
      obtain ⟨folder', whole, -, named, same | ⟨n, same⟩⟩ := made
      · exact .inl ⟨whole, source ▸ named, .inl (List.append_inj_right' same rfl |> List.singleton_inj.mp)⟩
      · exact .inr ⟨whole, source ▸ named, n, (List.append_inj_right' same rfl |> List.singleton_inj.mp)⟩
    next => exact .refl disk

theorem keeps_run (neat : store.tools.Neat) (call : Call) (has : disk.HasFolders store.imageDir) :
    Keeps store (call.Takes store) disk (call.run store disk).2 := by
  have prepares := keeps_prepared neat call disk
  obtain ⟨fault, stopped⟩ | same := call.run_cases store disk
  · rwa [stopped]
  · rw [same]
    exact prepares.trans
      ((keeps_publishFile _ (prepares.hasFolders has)).weaken fun _ named => .inl named)

end Call

def runAll (store : Store) (calls : List Call) (disk : Disk) : Disk :=
  calls.foldl (fun disk call => (call.run store disk).2) disk

theorem keeps_runAll (neat : store.tools.Neat) (calls : List Call)
    (has : disk.HasFolders store.imageDir) :
    Keeps store (fun name => ∃ call ∈ calls, call.Takes store name) disk
      (runAll store calls disk) := by
  induction calls generalizing disk with
  | nil => exact .refl disk
  | cons call calls ih =>
    have first := call.keeps_run neat has
    refine (first.weaken ?_).trans ((ih (first.hasFolders has)).weaken ?_)
    · exact fun name takes => ⟨call, List.mem_cons_self, takes⟩
    · rintro name ⟨call', member, takes⟩
      exact ⟨call', List.mem_cons_of_mem _ member, takes⟩

/-- Two references are equal exactly when the files that were published have the same name. Each
image is published as its source was when it was copied, and the first one is still so at the end
when no later call takes its name. -/
theorem published_by_name {a b : Call} {between : List Call} {one two : Disk}
    {image image' : ImageRef} (neat : store.tools.Neat)
    (first : a.run store disk = (.ok image, one))
    (second : b.run store (runAll store between one) = (.ok image', two)) :
    ∃ name name', Path.fileName? (a.source store) = some name ∧
      Path.fileName? (b.source store) = some name' ∧
      image.src = "img/" ++ name ∧ image'.src = "img/" ++ name' ∧
      (image.src = image'.src ↔ name = name') ∧
      Shows store (a.prepared store disk) one (a.source store) name ∧
      Shows store (b.prepared store (runAll store between one)) two (b.source store) name' ∧
      ((∀ call ∈ between ++ [b], ¬ call.Takes store name) →
        Shows store (a.prepared store disk) two (a.source store) name) := by
  obtain ⟨name, published⟩ := Call.run_eq_ok neat first
  obtain ⟨name', published'⟩ := Call.run_eq_ok neat second
  have isName := Path.isName_of_fileName? published.named
  refine ⟨name, name', published.named, published'.named, published.src_eq, published'.src_eq, ?_,
    published.shows, published'.shows, fun other => ?_⟩
  · rw [published.src_eq, published'.src_eq, String.append_right_inj]
  · obtain ⟨content, written, written', before, inside⟩ := published.shows
    have last : two = runAll store (between ++ [b]) one := by
      simp only [runAll, List.foldl_append, List.foldl_cons, List.foldl_nil] at second ⊢
      rw [second]
    have keeps := keeps_runAll neat (between ++ [b]) published.has
    have apart : ¬ ∃ call ∈ between ++ [b], call.Takes store name := by
      rintro ⟨call, member, takes⟩
      exact other call member takes
    rw [last]
    exact ⟨content, written, written', before, keeps.file_eq name _ isName apart inside⟩

/-- Where one program is installed and makes one picture. -/
def converting : Tools where
  run cmd _ disk :=
    match cmd with
    | .convert "c.pdf" "c.png" =>
      (.exited (some 0), (disk.write "c.png" (.picture 20 20 "c.pdf")).2)
    | _ => (.exited none, disk)
  scratch _ := ""
  measure := Picture.measure
  shrink := Picture.shrink

theorem neat_converting : converting.Neat where
  convert := by
    intro source target seconds disk
    unfold converting
    dsimp only
    split
    next eq =>
      obtain ⟨rfl, rfl⟩ : source = "c.pdf" ∧ target = "c.png" := by simpa using eq
      refine (disk.leaves_write "c.png" (.picture 20 20 "c.pdf")).weaken ?_
      intro place apart located
      refine apart ?_
      have isName : Path.IsName "c.png" := ⟨by decide, by decide, by decide⟩
      have joined : Path.join "" "c.png" = "c.png" := by decide
      obtain ⟨folder, -, rfl⟩ := Disk.locate_join isName (joined.symm ▸ located)
      exact ⟨folder, "c.png", located, by decide +kernel, .inl rfl⟩
    next => exact .refl _
  typeset := fun _ _ _ disk _ => ⟨⟨rfl, fun _ _ => rfl, fun _ _ _ => rfl⟩, rfl⟩
  scratch := by
    intro disk made place makes
    have located := makes.located
    simp [converting, Disk.follow] at located
  measure := measure_ne_ok

/-- The second figure is converted, and its picture is published as it was made. -/
theorem published_by_other_names :
    let store : Store := ⟨"", "out/img", 640, 120, converting⟩
    let disk : Disk := { Disk.empty with
      files := [(["a", "x.png"], ⟨.picture 900 300 "a/x.png", 0⟩),
        (["b.png"], ⟨.picture 10 10 "b.png", 0⟩), (["c.png"], ⟨.picture 5 5 "c.png", 0⟩),
        (["c.pdf"], ⟨.text "%PDF", 1⟩)]
      folders := [(["a"], 0)]
      now := 2 }
    ∃ image image' one two, Call.run store (.image "a/x.png") disk = (.ok image, one) ∧
      Call.run store (.image "c.pdf") (runAll store [.file "b.png"] one) = (.ok image', two) ∧
      image.src ≠ image'.src ∧ Shows store disk two "a/x.png" "x.png" ∧
      (two.file "out/img/c.png").toOption.map (·.content) = some (.picture 20 20 "c.pdf") := by
  intro store disk
  let one := (Call.run store (.image "a/x.png") disk).2
  let two := (Call.run store (.image "c.pdf") (runAll store [.file "b.png"] one)).2
  have first : Call.run store (.image "a/x.png") disk =
      (.ok ⟨"img/x.png", some "img/x_thumb.png"⟩, one) :=
    Prod.ext (by decide +kernel) rfl
  have second : Call.run store (.image "c.pdf") (runAll store [.file "b.png"] one) =
      (.ok ⟨"img/c.png", none⟩, two) :=
    Prod.ext (by decide +kernel) rfl
  obtain ⟨name, name', named, named', -, -, same, -, -, kept⟩ :=
    published_by_name neat_converting first second
  obtain rfl : "x.png" = name := Option.some.inj (Eq.trans (by decide +kernel) named)
  obtain rfl : "c.png" = name' := Option.some.inj (Eq.trans (by decide +kernel) named')
  have source : Call.source store (.image "a/x.png") = "a/x.png" := by decide +kernel
  have prepared : Call.prepared store disk (.image "a/x.png") = disk := if_neg (by decide +kernel)
  have untaken : ∀ call ∈ [Call.file "b.png", .image "c.pdf"], ¬ call.Takes store "x.png" := by
    have sources : [Call.file "b.png", .image "c.pdf"].map (Path.fileName? <| ·.source store) =
        [some "b.png", some "c.png"] := by decide +kernel
    intro call member takes
    obtain ⟨whole, found, among⟩ := takes.stem
    have named : some whole ∈ [some "b.png", some "c.png"] :=
      sources ▸ found ▸ List.mem_map_of_mem member
    obtain rfl | rfl : whole = "b.png" ∨ whole = "c.png" := by simpa using named
    · exact absurd among (by decide +kernel)
    · exact absurd among (by decide +kernel)
  have shown := kept untaken
  rw [source, prepared] at shown
  exact ⟨_, _, one, two, first, second, mt same.mp (by decide), shown, by decide +kernel⟩

/-- Images of one file name from two folders: pages show the second one for both. -/
theorem published_as_one :
    let store : Store := ⟨"", "out/img", 640, 120, .offline⟩
    let disk : Disk := { Disk.empty with
      files := [(["a", "x.png"], ⟨.picture 10 10 "a/x.png", 0⟩),
        (["b", "x.png"], ⟨.picture 20 20 "b/x.png", 0⟩)]
      folders := [(["a"], 0), (["b"], 0)]
      now := 1 }
    let one := Call.run store (.image "a/x.png") disk
    let two := Call.run store (.image "b/x.png") one.2
    disk.file "a/x.png" = .ok ⟨.picture 10 10 "a/x.png", 0⟩ ∧
      disk.file "b/x.png" = .ok ⟨.picture 20 20 "b/x.png", 0⟩ ∧
      one.1 = .ok ⟨"img/x.png", none⟩ ∧ two.1 = .ok ⟨"img/x.png", none⟩ ∧
      one.2.file "out/img/x.png" = .ok ⟨.picture 10 10 "a/x.png", 3⟩ ∧
      two.2.file "out/img/x.png" = .ok ⟨.picture 20 20 "b/x.png", 4⟩ := by
  decide +kernel

end Asset
end Quire
