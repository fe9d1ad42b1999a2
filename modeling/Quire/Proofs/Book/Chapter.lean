import Quire.Book
import Quire.Proofs.Text.Numeral
import Quire.Proofs.Walk.Frame
import Quire.Proofs.Walk.Independence

/-! What the rendering of one chapter does to the files, perhaps beside other chapters. Images are
written first and the page last, so that a chapter with a fault has its page as it was, unless the
writing of this very page broke off. -/
namespace Quire

namespace Reference

theorem isName_chapterFile (ordinal : Nat) (target : Target) :
    Path.IsName (chapterFile ordinal target.extension) := by
  have digits := Text.not_mem_toDigits (c := '/') (by decide) ordinal
  refine Path.isName_append (by simp [Text.padded, digits]) ?_ ?_ <;> cases target <;> decide

theorem chapterFile_inj {a b : Nat} {extension : String}
    (same : chapterFile a extension = chapterFile b extension) : a = b := by
  have digits : Text.padded 2 a = Text.padded 2 b := by
    simpa [chapterFile, ← String.toList_inj] using same
  rw [← Text.ofDigits_padded 2 a, ← Text.ofDigits_padded 2 b, digits]

theorem chapterFile_ne_png (ordinal : Nat) (target : Target) (stem : String) :
    chapterFile ordinal target.extension ≠ stem ++ ".png" := by
  intro same
  have last := congrArg (fun name : String => name.toList.getLast?) same
  cases target <;>
    simp [chapterFile, Target.extension, List.getLast?_cons, List.getLast?_append] at last

end Reference

namespace Book

variable {book : Book} {chapter : Chapter} {p q : Chapter → Prop} {a b c : Disk}

theorem locate_pagePath {disk : Disk} {place : Place}
    (located : disk.locate (book.pagePath chapter) = .place place) :
    ∃ folder, disk.position book.settings.outDir = .place folder ∧
      place = folder ++ [Reference.chapterFile chapter.ordinal book.settings.target.extension] :=
  Disk.locate_join (Reference.isName_chapterFile _ _) located

theorem isName_img : Path.IsName "img" := ⟨by decide, by decide, by decide⟩

theorem holds_store {disk : Disk} {place : Place} (holds : book.store.Holds disk place) :
    (∃ folder name, disk.position book.settings.outDir = .place folder ∧
      place = folder ++ ["img", name]) ∨ Asset.IsPicture place := by
  refine holds.imp_left ?_
  rintro ⟨images, name, at_, rfl⟩
  have joined : disk.enter (disk.position book.settings.outDir) "img" = .place images :=
    (disk.position_join _ isName_img.plain).symm.trans at_
  obtain ⟨folder, out, rfl⟩ := Disk.enter_eq_place isName_img joined
  exact ⟨folder, name, out, by simp⟩

/-- No image is a page. -/
theorem not_holds_of_page {disk : Disk} {place : Place}
    (located : disk.locate (book.pagePath chapter) = .place place) :
    ¬ book.store.Holds disk place := by
  intro holds
  obtain ⟨folder, out, rfl⟩ := locate_pagePath located
  obtain ⟨folder', name, out', same⟩ | ⟨folder', stem, same⟩ := holds_store holds
  · obtain rfl := Located.place.inj (out.symm.trans out')
    simpa using congrArg List.length same
  · obtain ⟨-, name⟩ := List.append_inj' same rfl
    exact Reference.chapterFile_ne_png _ _ _ (List.singleton_inj.mp name)

/-- A path of a page or an image. -/
def IsOutput (book : Book) (disk : Disk) (place : Place) : Prop :=
  (∃ folder name, disk.position book.settings.outDir = .place folder ∧
    (place = folder ++ [name] ∨ place = folder ++ ["img", name])) ∨ Asset.IsPicture place

def Beside (book : Book) : Disk → Disk → Prop := fun a b => Disk.Leaves (¬ book.IsOutput a ·) a b

def SamePage (book : Book) (chapter : Chapter) (a b : Disk) : Prop :=
  ∀ entry, b.file (book.pagePath chapter) = .ok entry ↔ a.file (book.pagePath chapter) = .ok entry

theorem samePage_of_leaves {untouched : Place → Prop} (leaves : Disk.Leaves untouched a b)
    (page : ∀ place, a.locate (book.pagePath chapter) = .place place → untouched place) :
    book.SamePage chapter a b := by
  intro entry
  simp only [Disk.file_eq_ok_iff]
  constructor
  · rintro ⟨place, located, there⟩
    have located' := leaves.grown_symm.locate located
    exact ⟨place, located', (leaves.entry_eq place (page place located')).symm.trans there⟩
  · rintro ⟨place, located, there⟩
    have same := leaves.entry_eq place (page place located)
    exact ⟨place, leaves.grown.locate located, same.trans there⟩

theorem SamePage.trans (first : book.SamePage chapter a b) (second : book.SamePage chapter b c) :
    book.SamePage chapter a c := fun entry => (second entry).trans (first entry)

theorem Beside.trans (first : book.Beside a b) (second : book.Beside b c) : book.Beside a c := by
  refine Disk.Leaves.trans first (second.weaken fun place apart output => apart ?_)
  obtain ⟨folder, name, out, among⟩ | picture := output
  · exact .inl ⟨folder, name, first.grown_symm.position out, among⟩
  · exact .inr picture

/-- Where the image folder is there, only pages and images change, and some of the pages do not. -/
def Keeps (book : Book) (p : Chapter → Prop) (a b : Disk) : Prop :=
  a.HasFolders book.settings.imageDir →
    book.Beside a b ∧ ∀ chapter, p chapter → book.SamePage chapter a b

namespace Keeps

theorem refl (disk : Disk) : book.Keeps p disk disk := fun _ => ⟨.refl disk, fun _ _ _ => .rfl⟩

theorem trans (first : book.Keeps p a b) (second : book.Keeps p b c) : book.Keeps p a c := by
  intro has
  obtain ⟨beside, pages⟩ := first has
  obtain ⟨beside', pages'⟩ := second (has.of_grown beside.grown)
  exact ⟨beside.trans beside', fun chapter kept =>
    (pages chapter kept).trans (pages' chapter kept)⟩

theorem weaken (keeps : book.Keeps p a b) (fewer : ∀ chapter, q chapter → p chapter) :
    book.Keeps q a b := fun has =>
  (keeps has).imp_right fun pages chapter kept => pages chapter (fewer chapter kept)

theorem of_publishes (neat : book.tools.Neat) (publishes : Asset.Publishes book.store a b) :
    book.Keeps (fun _ => True) a b := by
  intro has
  have leaves := publishes neat has
  refine ⟨leaves.weaken fun place apart holds => apart ?_, fun _ _ =>
    samePage_of_leaves leaves fun _ => not_holds_of_page⟩
  obtain ⟨folder, name, out, rfl⟩ | picture := holds_store holds
  · exact .inl ⟨folder, name, out, .inr rfl⟩
  · exact .inr picture

end Keeps

theorem writeText_eq (path text : String) (disk : Disk) :
    writeText path text disk = ((disk.write path (.text text)).1.mapError .unwritable,
      (disk.write path (.text text)).2) := by
  unfold writeText
  split
  next written => rw [written]; rfl
  next failed => rw [failed]; rfl

/-- Whether a file can be written does not depend on what it is to hold. -/
theorem writeText_fst (path text text' : String) (disk : Disk) :
    (writeText path text disk).1 = (writeText path text' disk).1 := by
  have same : (disk.write path (.text text)).1 = (disk.write path (.text text')).1 := by
    unfold Disk.write
    split
    · rfl
    split
    · rfl
    split <;> rfl
  rw [writeText_eq, writeText_eq, same]

/-- A file beside the pages leaves those of another name as they are. -/
theorem keeps_writeText {name : String} (isName : Path.IsName name) (text : String) (disk : Disk) :
    book.Keeps
      (fun chapter => Reference.chapterFile chapter.ordinal book.settings.target.extension ≠ name)
      disk (writeText (Path.join book.settings.outDir name) text disk).2 := by
  intro _
  have leaves := disk.leaves_write (Path.join book.settings.outDir name) (.text text)
  rw [writeText_eq]
  refine ⟨leaves.weaken fun place apart located => apart ?_, fun chapter differs =>
    samePage_of_leaves leaves fun place located located' => differs ?_⟩
  · obtain ⟨folder, out, rfl⟩ := Disk.locate_join isName located
    exact .inl ⟨folder, name, out, .inl rfl⟩
  · obtain ⟨folder, out, rfl⟩ := locate_pagePath located
    obtain ⟨folder', out', same⟩ := Disk.locate_join isName located'
    obtain rfl := Located.place.inj (out.symm.trans out')
    exact List.singleton_inj.mp (List.append_cancel_left same)

/-- The page of a chapter leaves those of the others as they are. -/
theorem keeps_writePage (chapter : Chapter) (text : String) (disk : Disk) :
    book.Keeps (·.ordinal ≠ chapter.ordinal) disk
      (writeText (book.pagePath chapter) text disk).2 :=
  (keeps_writeText (Reference.isName_chapterFile _ _) text disk).weaken fun _ differs same =>
    differs (Reference.chapterFile_inj same)

theorem runs_behind_source (book : Book) (chapter : Chapter) (desk : Desk) :
    (desk.visit fun disk => (book.source chapter disk, disk)).2.Runs
      (Asset.Publishes book.store) (book.renderChapter chapter desk).2 := by
  unfold renderChapter
  split
  next failed =>
    rw [failed]
    exact .refl _
  next source desk' read =>
    rw [read]
    exact Walk.runs_renderOn (book.context chapter source.verbs) desk' source.nodes

theorem runs_renderChapter (neat : book.tools.Neat) (chapter : Chapter) (desk : Desk) :
    desk.Runs (book.Keeps fun _ => True) (book.renderChapter chapter desk).2 := by
  have reads : desk.Runs (book.Keeps fun _ => True)
      (desk.visit fun disk => (book.source chapter disk, disk)).2 :=
    .access (.refl desk) (.refl _)
  exact reads.trans ((runs_behind_source book chapter desk).weaken fun _ _ => .of_publishes neat)

/-- Two renderings that find the same come to the same, up to the access that parts them. -/
theorem answers_renderChapter {n : Nat} {desk desk' : Desk} (book : Book) (chapter : Chapter)
    (inStep : desk.InStep n desk') :
    (book.renderChapter chapter desk).2.Parted n (book.renderChapter chapter desk').2 ∨
      Answers (fun x y => x.diagnostics = y.diagnostics)
        (book.renderChapter chapter desk).1 (book.renderChapter chapter desk').1 ∧
      (book.renderChapter chapter desk).2.InStep n (book.renderChapter chapter desk').2 := by
  have behind := runs_behind_source book chapter desk
  have behind' := runs_behind_source book chapter desk'
  obtain parted | ⟨same, inStep⟩ := inStep.visit fun disk => (book.source chapter disk, disk)
  · exact .inl (parted.runs behind behind')
  unfold renderChapter
  generalize desk.visit (fun disk => (book.source chapter disk, disk)) = x at *
  generalize desk'.visit (fun disk => (book.source chapter disk, disk)) = y at *
  obtain ⟨result, middle⟩ := x
  obtain ⟨result', middle'⟩ := y
  obtain rfl : result = result' := same
  cases result with
  | error e => exact .inr ⟨.error e, inStep⟩
  | ok source =>
    obtain parted | ⟨answers, inStep⟩ := Walk.answers_renderOn
      (.refl (book.context chapter source.verbs)) inStep source.nodes
    · exact .inl parted
    · exact .inr ⟨answers.imp fun _ _ same => same.2 fun _ => rfl, inStep⟩

/-- A chapter with a fault in its source ends there, and any other goes on to write its page. -/
theorem writeChapter_cases (book : Book) (chapter : Chapter) (desk : Desk) :
    (∃ fault desk', book.renderChapter chapter desk = (.error fault, desk') ∧
      book.writeChapter chapter desk = (.error fault, desk')) ∨
    ∃ rendered desk', book.renderChapter chapter desk = (.ok rendered, desk') ∧
      let wrote := writeText (book.pagePath chapter) (book.page chapter rendered.body) desk'.next
      book.writeChapter chapter desk =
        (wrote.1.map fun _ => ⟨chapter.ordinal, book.pagePath chapter, rendered.diagnostics⟩,
          desk'.proceed wrote.2) := by
  cases rendering : book.renderChapter chapter desk with
  | mk result desk' =>
    cases result with
    | error fault => exact .inl ⟨fault, desk', rfl, by rw [writeChapter, rendering]⟩
    | ok rendered =>
      refine .inr ⟨rendered, desk', rfl, ?_⟩
      rw [writeChapter, rendering]
      simp only [Desk.visit]
      generalize writeText _ _ desk'.next = wrote
      obtain ⟨_ | _, after⟩ := wrote <;> rfl

theorem runs_writeChapter (neat : book.tools.Neat) (chapter : Chapter) (desk : Desk) :
    desk.Runs (book.Keeps (·.ordinal ≠ chapter.ordinal)) (book.writeChapter chapter desk).2 := by
  have renders := (runs_renderChapter neat chapter desk).weaken
    fun _ _ keeps => keeps.weaken (q := (·.ordinal ≠ chapter.ordinal)) fun _ _ => trivial
  obtain ⟨fault, desk', rendered, wrote⟩ | ⟨body, desk', rendered, wrote⟩ :=
    writeChapter_cases book chapter desk
  · rw [rendered] at renders
    rwa [wrote]
  · rw [rendered] at renders
    rw [wrote]
    exact .access renders (keeps_writePage chapter _ _)

theorem visits_renderChapter_le (book : Book) (chapter : Chapter) (desk : Desk) :
    (book.renderChapter chapter desk).2.visits.length ≤
      (book.writeChapter chapter desk).2.visits.length := by
  obtain ⟨fault, desk', rendered, wrote⟩ | ⟨body, desk', rendered, wrote⟩ :=
    writeChapter_cases book chapter desk
  · rw [rendered, wrote]
  · rw [rendered, wrote, Desk.length_proceed]
    exact Nat.le_succ _

/-- The page of a chapter is written last: each access before that is one of the rendering. -/
theorem visit_renderChapter {desk : Desk} {i : Nat} {visit : Disk × Disk}
    (at_ : (book.writeChapter chapter desk).2.visits[i]? = some visit)
    (more : i + 1 < (book.writeChapter chapter desk).2.visits.length) :
    (book.renderChapter chapter desk).2.visits[i]? = some visit := by
  obtain ⟨fault, desk', rendered, wrote⟩ | ⟨body, desk', rendered, wrote⟩ :=
    writeChapter_cases book chapter desk
  · rw [wrote] at at_
    rw [rendered]
    exact at_
  · rw [wrote, Desk.length_proceed] at more
    rw [wrote, Desk.proceed, List.getElem?_append_left (Nat.lt_of_succ_lt_succ more)] at at_
    rw [rendered]
    exact at_

theorem together_writeChapter {n : Nat} {desk desk' : Desk} (book : Book) (chapter : Chapter)
    (inStep : desk.InStep n desk') :
    Desk.Together n (book.writeChapter chapter desk) (book.writeChapter chapter desk') := by
  obtain parted | ⟨answers, inStep⟩ := answers_renderChapter book chapter inStep
  · exact .inl ⟨parted.many.trans_le (visits_renderChapter_le book chapter desk),
      parted.many'.trans_le (visits_renderChapter_le book chapter desk')⟩
  have few := inStep.few
  have same_length := congrArg List.length inStep.visits_eq
  obtain ⟨fault, middle, rendered, wrote⟩ | ⟨body, middle, rendered, wrote⟩ :=
      writeChapter_cases book chapter desk <;>
    obtain ⟨fault', middle', rendered', wrote'⟩ | ⟨body', middle', rendered', wrote'⟩ :=
      writeChapter_cases book chapter desk' <;>
    rw [rendered, rendered'] at answers inStep same_length <;> rw [rendered] at few <;>
    rw [wrote, wrote'] <;> cases answers <;> dsimp only at inStep few same_length
  · exact .inr ⟨rfl, few, same_length ▸ few⟩
  next same =>
    obtain last | more := Nat.eq_or_lt_of_le few
    · refine .inl ⟨?_, ?_⟩ <;> rw [Desk.length_proceed] <;> omega
    · refine .inr ⟨?_, ?_, ?_⟩
      · rw [inStep.next_eq more, writeText_fst _ _ (book.page chapter body'.body), same]
      · rw [Desk.length_proceed]
        omega
      · rw [Desk.length_proceed]
        omega

/-- A chapter at its start, that finds only trees that differ in pages and images. -/
structure Starts (book : Book) (before : Disk) (desk : Desk) : Prop where
  fresh : desk.visits = []
  beside : ∀ disk ∈ desk.disk :: desk.found, book.Beside before disk

/-- The writing of the page of a chapter broke off, and the front of it is there. -/
def CutShort (book : Book) (chapter : Chapter) (before after : Disk) (fault : Fault) : Prop :=
  ∃ desk rendered desk' bytes problem entry, book.Starts before desk ∧
    book.renderChapter chapter desk = (.ok rendered, desk') ∧
    desk'.next.mishap? = some (.brokenOff bytes problem) ∧ fault = .unwritable problem ∧
    after.file (book.pagePath chapter) = .ok entry ∧
    entry.content = (Content.text (book.page chapter rendered.body)).front bytes

/-- What became of a chapter, in the files before and after the run. -/
inductive Outcome (book : Book) (before after : Disk) (chapter : Chapter) :
    Nat × Except Fault Page.Report → Prop
  | written {desk desk' : Desk} {rendered : Rendered} {entry : Entry}
      (starts : book.Starts before desk)
      (done : book.renderChapter chapter desk = (.ok rendered, desk'))
      (there : after.file (book.pagePath chapter) = .ok entry)
      (text : entry.content = .text (book.page chapter rendered.body)) :
      Outcome book before after chapter
        (chapter.ordinal, .ok ⟨chapter.ordinal, book.pagePath chapter, rendered.diagnostics⟩)
  | kept {fault : Fault} (same : book.SamePage chapter before after) :
      Outcome book before after chapter (chapter.ordinal, .error fault)
  | cut {fault : Fault} (short : book.CutShort chapter before after fault) :
      Outcome book before after chapter (chapter.ordinal, .error fault)

theorem Outcome.later {before middle after : Disk} {result : Nat × Except Fault Page.Report}
    (outcome : book.Outcome before middle chapter result)
    (same : book.SamePage chapter middle after) :
    book.Outcome before after chapter result := by
  cases outcome with
  | written starts done there text => exact .written starts done ((same _).mpr there) text
  | kept left => exact .kept (left.trans same)
  | cut short =>
    obtain ⟨desk, rendered, desk', bytes, problem, entry, starts, done, mishap, fault, there, text⟩ :=
      short
    exact .cut ⟨desk, rendered, desk', bytes, problem, entry, starts, done, mishap, fault,
      (same _).mpr there, text⟩

/-- What becomes of a chapter that is rendered, when its page is written. -/
theorem outcome_writeText {before : Disk} {desk desk' : Desk} {rendered : Rendered}
    (starts : book.Starts before desk)
    (done : book.renderChapter chapter desk = (.ok rendered, desk'))
    (same : book.SamePage chapter before desk'.next) :
    let wrote := writeText (book.pagePath chapter) (book.page chapter rendered.body) desk'.next
    book.Outcome before wrote.2 chapter (chapter.ordinal, wrote.1.map fun _ =>
      ⟨chapter.ordinal, book.pagePath chapter, rendered.diagnostics⟩) := by
  intro wrote
  rcases eq : wrote with ⟨result, after⟩
  unfold wrote at eq
  generalize page : book.page chapter rendered.body = text at eq
  have there {after : Disk} {content : Content} {place : Place}
      (wrote : Disk.Wrote desk'.next after (book.pagePath chapter) content place) :
      after.file (book.pagePath chapter) = .ok ⟨content, desk'.next.now⟩ :=
    Disk.file_eq_ok_iff.mpr ⟨place, wrote.leaves.grown.locate wrote.located, wrote.entry_eq⟩
  rw [writeText_eq] at eq
  obtain ⟨written, place, writes, made⟩ | ⟨problem, left, stopped, rest⟩ |
    ⟨bytes, problem, front, place, stopped, mishap, made⟩ :=
      desk'.next.write_cases (book.pagePath chapter) (.text text)
  · rw [writes] at eq
    obtain ⟨rfl, rfl⟩ := Prod.mk.inj eq
    exact .written starts done (there made) (by rw [page])
  · rw [stopped] at eq
    obtain ⟨rfl, rfl⟩ := Prod.mk.inj eq
    refine .kept (same.trans ?_)
    obtain rfl | rfl := rest
    · exact fun _ => .rfl
    · exact samePage_of_leaves (.pass desk'.next) fun _ _ => trivial
  · rw [stopped] at eq
    obtain ⟨rfl, rfl⟩ := Prod.mk.inj eq
    exact .cut ⟨desk, rendered, desk', bytes, problem, _, starts, done, mishap, rfl, there made,
      by rw [page]⟩

end Book
end Quire
