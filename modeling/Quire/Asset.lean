import Quire.Digest
import Quire.Disk
import Quire.Fault

/-! Publishing the images of a book: copies in the image folder of the pages, with a thumbnail for
an image that is too large to show. -/
namespace Quire

structure ImageRef where
  src : String
  thumbnail : Option String
deriving DecidableEq, Repr

namespace Asset

def glyphs : List (String × String) :=
  [("emoji.pdf", "&#x1F60A;"), ("hangul.pdf", "&#54620;&#44544;"),
   ("tango.pdf", "&#21336;&#35486;")]

def glyph? (path : String) : Option String := Path.fileName? path >>= fun name => glyphs.lookup name

inductive Command
  /-- Makes a picture of a figure. -/
  | convert (source target : String)
  /-- Sets the figure in a folder. -/
  | typeset (folder : String)

def Command.words : Command → List String
  | convert source target => ["convert", "-density", "144", source, target]
  | typeset _ => ["pdflatex", "-halt-on-error", "-interaction=batchmode", "figure.tex"]

inductive Ending
  /-- It ended by itself with a status, or without one: it could not start, or was killed. -/
  | exited (status : Option Int)
  /-- It was killed when its time was over. -/
  | overdue
  /-- It could not be waited for. -/
  | lost (problem : FileProblem)
deriving DecidableEq, Repr

/-- What is not of this library: other programs, the decoder of pictures, and the names of scratch
folders. -/
structure Tools where
  /-- Runs a program for some seconds at most. -/
  run : Command → Nat → Disk → Ending × Disk
  scratch : Disk → String
  /-- Width and height of a picture that a file of a path holds. -/
  measure : String → Content → Except String (Nat × Nat)
  /-- A picture in proportion that fits into a square. -/
  shrink : Nat → Content → Content

structure Store where
  /-- The folder that image paths start from. -/
  base : String
  imageDir : String
  /-- Images wider or higher than this get a thumbnail. -/
  thumbnailSize : Nat
  /-- How many seconds a program may take. -/
  timeout : Nat
  tools : Tools

/-- A job on files: its result, and the files after it, whether it fails or not. -/
abbrev Job (α : Type) := Disk → Except Fault α × Disk

def failed (cause : RenderFault) : Job α := fun disk => (.error (.render cause), disk)

def looking (read : Disk → Except RenderFault α) : Job α := fun disk =>
  ((read disk).mapError .render, disk)

def commandWord (word : String) : String :=
  if word.toList.contains '\x00' then "<string-with-nul>" else word

def commandLine (words : List String) : String := " ".intercalate (words.map commandWord)

def Ending.result (words : List String) (seconds : Nat) : Ending → Except Fault Unit
  | exited (some 0) => .ok ()
  | exited status => .error (.render (.commandFailed (commandLine words) status))
  | overdue => .error (.render (.commandOverdue (commandLine words) seconds))
  | lost problem => .error (.unwritable problem)

/-- Runs a program. One with a zero character among its words does not start. -/
def command (store : Store) (cmd : Command) : Job Unit := fun disk =>
  if cmd.words.any (·.toList.contains '\x00') then
    ((Ending.exited none).result cmd.words store.timeout, disk)
  else
    let (ending, disk) := store.tools.run cmd store.timeout disk
    (ending.result cmd.words store.timeout, disk)

def openPicture (store : Store) (disk : Disk) (path : String) :
    Except PictureProblem (Content × Nat × Nat) :=
  match disk.file path with
  | .error problem => .error (.file problem)
  | .ok entry =>
    match store.tools.measure path entry.content with
    | .error message => .error (.undecodable message)
    | .ok (width, height) => .ok (entry.content, width, height)

def fileName (path : String) : String := (Path.fileName? path).getD ""

/-- Writes a thumbnail beside an image that is too large, unless there is a fresh one. -/
def thumbnail (store : Store) (path : String) : Job (Option String) := fun disk =>
  match openPicture store disk path with
  | .error problem => failed (.badImage (.unusable path problem)) disk
  | .ok (content, width, height) =>
    if width ≤ store.thumbnailSize ∧ height ≤ store.thumbnailSize then (.ok none, disk)
    else
      let target := Path.withFileName path ((Path.stem? path).getD "" ++ "_thumb.png")
      if disk.isFresh target path then (.ok (some target), disk)
      else
        match disk.write target (store.tools.shrink store.thumbnailSize content) with
        | (.ok (), disk) => (.ok (some target), disk)
        | (.error problem, disk) => failed (.badImage (.unusable target (.file problem))) disk

def refer (store : Store) (published : String) : Job ImageRef := fun disk =>
  match thumbnail store published disk with
  | (.ok thumb, disk) =>
    (.ok ⟨"img/" ++ fileName published, thumb.map fun t => "img/" ++ fileName t⟩, disk)
  | (.error e, disk) => (.error e, disk)

/-- What a copy of a file holds. A file that is copied onto itself ends up empty. -/
def copied (disk : Disk) (source target : String) (content : Content) : Content :=
  match disk.locate source, disk.locate target with
  | .place a, .place b => if a = b then .text "" else content
  | _, _ => content

def copy (source target : String) : Job Unit := fun disk =>
  match disk.file source with
  | .error problem =>
    let problem := if disk.containsFolder source then .notCopyable else problem
    (.error (.unreadable source problem), disk)
  | .ok entry =>
    match disk.write target (copied disk source target entry.content) with
    | (.ok (), disk) => (.ok (), disk)
    | (.error problem, disk) => (.error (.unreadable source problem), disk)

def publishFile (store : Store) (source : String) : Job ImageRef := fun disk =>
  if !disk.contains source then failed (.badImage (.missing source)) disk
  else
    match Path.fileName? source with
    | none => failed (.badImage (.badPath source)) disk
    | some name =>
      match disk.makeFolders store.imageDir with
      | (.error problem, disk) => (.error (.unwritable problem), disk)
      | (.ok (), disk) =>
        let target := Path.join store.imageDir name
        match copy source target disk with
        | (.error e, disk) => (.error e, disk)
        | (.ok (), disk) => refer store target disk

/-- Figures that pages cannot show; they go through a picture beside them. -/
def isVector (path : String) : Bool :=
  Path.extension? path == some "pdf" || Path.extension? path == some "eps"

/-- Publishes an image that a source names. A figure is converted unless its picture is fresh. -/
def publish (store : Store) (path : String) : Job ImageRef := fun disk =>
  let source := Path.join store.base path
  if isVector source then
    let png := Path.withExtension source "png"
    if disk.isFresh png source then publishFile store png disk
    else
      match command store (.convert source png) disk with
      | (.error e, disk) => (.error e, disk)
      | (.ok (), disk) => publishFile store png disk
  else publishFile store source disk

/-- The name of a compiled drawing; the digest of its source tells edited drawings apart. -/
def drawingName (source name : String) : String := name ++ "-" ++ Digest.hex source ++ ".png"

def drawingText (source : String) : String :=
  .join ["\\documentclass[tikz]\x7bstandalone\x7d\n\\usepackage\x7btikz\x7d\n",
    "\\usepackage\x7bpgfplots\x7d\n\\begin\x7bdocument\x7d\n", source,
    "\n\\end\x7bdocument\x7d\n"]

def inScratch (store : Store) (job : String → Job Unit) : Job Unit := fun disk =>
  let folder := store.tools.scratch disk
  match disk.makeFolder folder with
  | (.error problem, disk) => (.error (.unwritable problem), disk)
  | (.ok (), disk) =>
    let (result, disk) := job folder disk
    (result, disk.removeFolder folder)

def compile (store : Store) (source target folder : String) : Job Unit := fun disk =>
  match disk.write (Path.join folder "figure.tex") (.text (drawingText source)) with
  | (.error problem, disk) => (.error (.unwritable problem), disk)
  | (.ok (), disk) =>
    match command store (.typeset folder) disk with
    | (.error e, disk) => (.error e, disk)
    | (.ok (), disk) => command store (.convert (Path.join folder "figure.pdf") target) disk

def publishDrawing (store : Store) (source name : String) : Job ImageRef := fun disk =>
  match disk.makeFolders store.imageDir with
  | (.error problem, disk) => (.error (.unwritable problem), disk)
  | (.ok (), disk) =>
    let target := Path.join store.imageDir (drawingName source name)
    if disk.contains target then refer store target disk
    else
      match inScratch store (compile store source target) disk with
      | (.error e, disk) => (.error e, disk)
      | (.ok (), disk) => refer store target disk

end Asset
end Quire
