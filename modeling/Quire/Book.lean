import Quire.Book.Include
import Quire.Labels.Record
import Quire.Settings
import Quire.Verbs
import Quire.Walk

/-! A book as a whole: its labels, its bibliography and its chapters, and the pages made of them.
A fault ends only the chapter it comes from. -/
namespace Quire

structure Book where
  settings : Settings
  labels : LabelIndex
  bibliography : Bibliography
  /-- What the images are made with. -/
  tools : Asset.Tools

structure Page.Report where
  ordinal : Nat
  /-- The path of its page. -/
  output : String
  diagnostics : Diagnostics
deriving DecidableEq, Repr

structure Book.Report where
  chapters : List Page.Report
  failures : List (Nat × Fault)
  indexFiles : List String
deriving DecidableEq, Repr

namespace Book

open Asset (Job)

def loadBibliography (disk : Disk) (target : Target) : Option String → Except Fault Bibliography
  | none => .ok .empty
  | some path =>
    match disk.readText path with
    | .error problem => .error (.unreadable path problem)
    | .ok source => (Bibliography.parse target source).mapError .index

def load (tools : Asset.Tools) (settings : Settings) (disk : Disk) : Except Fault Book := do
  let labels ← Labels.load disk settings.auxPath settings.target settings.renames
  let bibliography ← loadBibliography disk settings.target settings.bibliographyPath
  return { settings, labels, bibliography, tools }

def chapters (book : Book) : List Chapter := book.labels.chapters

def store (book : Book) : Asset.Store where
  base := book.settings.base
  imageDir := book.settings.imageDir
  thumbnailSize := book.settings.thumbnailSize
  timeout := book.settings.timeout
  tools := book.tools

structure Source where
  nodes : List Node
  verbs : List String

def source (book : Book) (chapter : Chapter) (disk : Disk) : Except Fault Source := do
  let text ← Include.expand disk book.settings.base Include.maxDepth chapter.texfile
  let (tex, verbs) := Verbs.preprocess [] text
  match Node.parse tex with
  | .ok nodes => return ⟨nodes, verbs⟩
  | .error e => throw (.read e)

def context (book : Book) (chapter : Chapter) (verbs : List String) : Walk.Context where
  labels := book.labels
  bibliography := book.bibliography
  verbs := verbs
  snippetDir := book.settings.snippetDir
  assets := book.store
  target := book.settings.target
  chapter := chapter.ordinal

def renderChapter (book : Book) (chapter : Chapter) (desk : Desk) :
    Except Fault Rendered × Desk :=
  match desk.visit fun disk => (book.source chapter disk, disk) with
  | (.error e, desk) => (.error e, desk)
  | (.ok source, desk) => Walk.renderOn (book.context chapter source.verbs) desk source.nodes

def pagePath (book : Book) (chapter : Chapter) : String :=
  Path.join book.settings.outDir
    (Reference.chapterFile chapter.ordinal book.settings.target.extension)

def page (book : Book) (chapter : Chapter) (body : String) : String :=
  book.settings.target.flavor.page {
    bookTitle := book.settings.title
    chapter
    body
    previous := if chapter.ordinal = 0 then none else book.labels.chapter? (chapter.ordinal - 1)
    next := book.labels.chapter? (chapter.ordinal + 1) }

def writeText (path text : String) : Job Unit := fun disk =>
  match disk.write path (.text text) with
  | (.ok (), disk) => (.ok (), disk)
  | (.error problem, disk) => (.error (.unwritable problem), disk)

/-- Writes the page of a chapter, unless the chapter has a fault. -/
def writeChapter (book : Book) (chapter : Chapter) (desk : Desk) :
    Except Fault Page.Report × Desk :=
  match book.renderChapter chapter desk with
  | (.error e, desk) => (.error e, desk)
  | (.ok rendered, desk) =>
    match desk.visit (writeText (book.pagePath chapter) (book.page chapter rendered.body)) with
    | (.error e, desk) => (.error e, desk)
    | (.ok (), desk) => (.ok ⟨chapter.ordinal, book.pagePath chapter, rendered.diagnostics⟩, desk)

/-- A chapter that is rendered beside others, and the trees that its accesses have found so far.
These alone decide how it goes on. -/
structure Task where
  chapter : Chapter
  desk : Desk

def Task.find (task : Task) (disk : Disk) : Task :=
  { task with desk := { task.desk with found := task.desk.found ++ [disk] } }

def advance (book : Book) (task : Task) (disk : Disk) : Task × Disk :=
  let next := task.find disk
  match (book.writeChapter task.chapter next.desk).2.visits[task.desk.found.length]? with
  | some (_, disk) => (next, disk)
  | none => (task, disk)

def complete (book : Book) (task : Task) (disk : Disk) : Except Fault Page.Report × Disk :=
  let (result, desk) := book.writeChapter task.chapter (task.find disk).desk
  (result, if task.desk.found.length < desk.visits.length then desk.disk else disk)

/-- Chapters at work at the same time: turns say which of them has the next access. -/
def takeTurns (book : Book) : List Nat → List Task → Disk → List Task × Disk
  | [], tasks, disk => (tasks, disk)
  | turn :: turns, tasks, disk =>
    match tasks[turn]? with
    | none => takeTurns book turns tasks disk
    | some task =>
      let (task, disk) := book.advance task disk
      takeTurns book turns (tasks.set turn task) disk

def completeAll (book : Book) :
    List Task → Disk → List (Nat × Except Fault Page.Report) × Disk
  | [], disk => ([], disk)
  | task :: rest, disk =>
    let (result, disk) := book.complete task disk
    let (results, disk) := book.completeAll rest disk
    ((task.chapter.ordinal, result) :: results, disk)

def writeChapters (book : Book) (turns : List Nat) (chapters : List Chapter) (disk : Disk) :
    List (Nat × Except Fault Page.Report) × Disk :=
  let turns := if book.settings.parallel then turns else []
  let (tasks, disk) := book.takeTurns turns (chapters.map (⟨·, .alone disk⟩)) disk
  book.completeAll tasks disk

def writeFiles (folder : String) : List (String × String) → Job (List String)
  | [], disk => (.ok [], disk)
  | (name, text) :: rest, disk =>
    match writeText (Path.join folder name) text disk with
    | (.error e, disk) => (.error e, disk)
    | (.ok (), disk) =>
      let (paths, disk) := writeFiles folder rest disk
      (paths.map (Path.join folder name :: ·), disk)

def writeIndex (book : Book) : Job (List String) :=
  writeFiles book.settings.outDir
    (book.settings.target.flavor.index book.settings.title book.chapters)

def makeFolders (book : Book) (disk : Disk) : Except FileProblem Unit × Disk :=
  match disk.makeFolders book.settings.outDir with
  | (.error problem, disk) => (.error problem, disk)
  | (.ok (), disk) => disk.makeFolders book.settings.imageDir

/-- The chapters with the selected ordinals, in their order; all when none is selected. -/
def selected (book : Book) (selection : List Nat) : List Chapter :=
  book.chapters.filter fun c => selection.isEmpty || selection.contains c.ordinal

def Report.ofResults (results : List (Nat × Except Fault Page.Report))
    (indexFiles : List String) : Report where
  chapters := results.filterMap fun
    | (_, .ok page) => some page
    | (_, .error _) => none
  failures := results.filterMap fun
    | (_, .ok _) => none
    | (ordinal, .error e) => some (ordinal, e)
  indexFiles

def render (book : Book) (turns selection : List Nat) : Job Report := fun disk =>
  match selection.find? fun ordinal => (book.labels.chapter? ordinal).isNone with
  | some ordinal => (.error (.settings (.noChapter ordinal)), disk)
  | none =>
    match book.makeFolders disk with
    | (.error problem, disk) => (.error (.unwritable problem), disk)
    | (.ok (), disk) =>
      let (results, disk) := book.writeChapters turns (book.selected selection) disk
      let (index, disk) := book.writeIndex disk
      (index.map (Report.ofResults results), disk)

def renderAt (tools : Asset.Tools) (turns : List Nat) (settingsPath : String) : Job Report :=
  fun disk =>
    match Settings.load disk settingsPath >>= (load tools · disk) with
    | .error e => (.error e, disk)
    | .ok book => book.render turns [] disk

namespace Report

def isSuccess (report : Report) : Bool := report.failures.isEmpty

def flagged (report : Report) : List Page.Report :=
  report.chapters.filter (!·.diagnostics.isClean)

end Report
end Book
end Quire
