import Quire.Disk.Path
import Quire.Disk.Problem

/-! A tree of files: what each holds and when it was written. Jobs on a book read and write a
value of this type, so that what they do to files can be stated and tested like any result. -/
namespace Quire

/-- What a file holds. Of a picture only its size matters, and the file that its dots come from. A
file that is neither text nor a picture that can be read counts as a picture without width. -/
inductive Content
  | text (content : String)
  | picture (width height : Nat) (origin : String)
deriving DecidableEq, Repr

structure Entry where
  content : Content
  /-- When the file was last written; a later time is greater. -/
  written : Int
deriving DecidableEq, Repr

/-- The names from the root of the tree down to a file or folder. -/
abbrev Place := List String

inductive Mishap
  | refused (problem : FileProblem)
  /-- The writing of a file breaks off when some bytes are there. -/
  | brokenOff (bytes : Nat) (problem : FileProblem)
deriving DecidableEq, Repr

def Mishap.problem : Mishap → FileProblem
  | refused problem | brokenOff _ problem => problem

structure Disk where
  files : List (Place × Entry)
  /-- Folders other than the root, and when they were made. -/
  folders : List (Place × Int)
  /-- The time of the next change. -/
  now : Int
  /-- The folder that relative paths start from. -/
  home : Place := []
  /-- The changes that do not succeed, by their times. -/
  mishaps : List (Int × Mishap) := []
deriving Repr

inductive Located
  /-- A place of the tree, whether something is there or not. -/
  | place (place : Place)
  | nowhere (problem : FileProblem)

def frontChars? : Nat → List Char → Option (List Char)
  | 0, _ | _, [] => some []
  | bytes, c :: cs =>
    if c.utf8Size ≤ bytes then (frontChars? (bytes - c.utf8Size) cs).map (c :: ·) else none

def Content.front (bytes : Nat) : Content → Content
  | .text content =>
    match frontChars? bytes content.toList with
    | some front => .text (.ofList front)
    | none => .picture 0 0 ""
  | .picture _ _ origin => .picture 0 0 origin

namespace Disk

def empty : Disk := { files := [], folders := [], now := 0 }

def entry? (disk : Disk) (place : Place) : Option Entry := disk.files.lookup place

def isFolder (disk : Disk) (place : Place) : Bool :=
  place.isEmpty || (disk.folders.lookup place).isSome

def maxName : Nat := 255

/-- Goes down one piece of a path. The folder above the root is the root. -/
def enter (disk : Disk) (position : Located) (piece : String) : Located :=
  match position with
  | .nowhere problem => .nowhere problem
  | .place place =>
    if !disk.isFolder place then
      .nowhere (if (disk.entry? place).isSome then .notFolder else .missing)
    else if Path.isSilent piece then .place place
    else if piece = ".." then .place place.dropLast
    else if maxName < piece.utf8ByteSize then .nowhere .longName
    else .place (place ++ [piece])

def start (disk : Disk) (path : String) : Located :=
  .place (if Path.isAbsolute path then [] else disk.home)

def follow (disk : Disk) (path : String) (pieces : List String) : Located :=
  if path.isEmpty then .nowhere .missing
  else if path.toList.contains '\x00' then .nowhere .zeroCharacter
  else if 4096 ≤ path.utf8ByteSize then .nowhere .longName
  else pieces.foldl disk.enter (disk.start path)

def locate (disk : Disk) (path : String) : Located := disk.follow path (Path.pieces path)

def file (disk : Disk) (path : String) : Except FileProblem Entry :=
  match disk.locate path with
  | .place place =>
    match disk.entry? place with
    | some entry => .ok entry
    | none => .error (if disk.isFolder place then .isFolder else .missing)
  | .nowhere problem => .error problem

def contains (disk : Disk) (path : String) : Bool :=
  match disk.locate path with
  | .place place => disk.isFolder place || (disk.entry? place).isSome
  | .nowhere _ => false

def containsFolder (disk : Disk) (path : String) : Bool :=
  match disk.locate path with
  | .place place => disk.isFolder place
  | .nowhere _ => false

def readText (disk : Disk) (path : String) : Except FileProblem String :=
  match disk.file path with
  | .ok ⟨.text content, _⟩ => .ok content
  | .ok ⟨.picture .., _⟩ => .error .notText
  | .error problem => .error problem

def texts (disk : Disk) : List String :=
  disk.files.filterMap fun (_, entry) =>
    match entry.content with
    | .text content => some content
    | .picture .. => none

theorem mem_texts {disk : Disk} {path text : String} (h : disk.readText path = .ok text) :
    text ∈ disk.texts := by
  unfold readText at h
  split at h
  next content written found =>
    obtain rfl := Except.ok.inj h
    unfold file at found
    split at found
    next place located =>
      split at found
      next entry there =>
        obtain rfl := Except.ok.inj found
        obtain ⟨front, back, split, -⟩ := List.lookup_eq_some_iff.mp there
        refine List.mem_filterMap.mpr ⟨(place, ⟨.text content, written⟩), ?_, rfl⟩
        simp [split]
      next => cases found
    next => cases found
  next => cases h
  next => cases h

def put (disk : Disk) (place : Place) (entry : Entry) : Disk :=
  { disk with files := disk.files.filter (·.1 != place) ++ [(place, entry)] }

def pass (disk : Disk) : Disk := { disk with now := disk.now + 1 }

def mishap? (disk : Disk) : Option Mishap := disk.mishaps.lookup disk.now

/-- Writes a file. Its folder has to exist, and no folder may have its name. A file that is there is
emptied first, so that a mishap can leave the front of a file. -/
def write (disk : Disk) (path : String) (content : Content) : Except FileProblem Unit × Disk :=
  match disk.locate path with
  | .nowhere problem => (.error problem, disk)
  | .place place =>
    if disk.isFolder place then (.error .isFolder, disk)
    else
      match disk.mishap? with
      | none => (.ok (), disk.pass.put place ⟨content, disk.now⟩)
      | some (.refused problem) => (.error problem, disk.pass)
      | some (.brokenOff bytes problem) =>
        (.error problem, disk.pass.put place ⟨content.front bytes, disk.now⟩)

/-- Makes a folder in one that exists. Slashes at the end of the path do not count, but a dot does:
it stands for a folder that is there. -/
def makeFolder (disk : Disk) (path : String) : Except FileProblem Unit × Disk :=
  match disk.follow path (Text.dropEndWhile String.isEmpty (Path.pieces path)) with
  | .nowhere problem => (.error problem, disk)
  | .place place =>
    if disk.isFolder place || (disk.entry? place).isSome then (.error .inTheWay, disk)
    else
      match disk.mishap? with
      | some mishap => (.error mishap.problem, disk.pass)
      | none => (.ok (), { disk.pass with folders := disk.folders ++ [(place, disk.now)] })

def makeEach : List String → Disk → Except FileProblem Unit × Disk
  | [], disk => (.ok (), disk)
  | folder :: folders, disk =>
    match disk.makeFolder folder with
    | (.ok (), disk) => makeEach folders disk
    | (.error problem, disk) =>
      if disk.containsFolder folder then makeEach folders disk else (.error problem, disk)

def makeFolders (disk : Disk) (path : String) : Except FileProblem Unit × Disk :=
  makeEach (Path.ancestors path) disk

def removeFolder (disk : Disk) (path : String) : Disk :=
  match disk.locate path with
  | .nowhere _ => disk
  | .place place =>
    { disk with
      files := disk.files.filter (!place.isPrefixOf ·.1)
      folders := disk.folders.filter (!place.isPrefixOf ·.1) }

def time? (disk : Disk) (path : String) : Option Int :=
  match disk.locate path with
  | .place [] => some disk.now
  | .place place => (disk.entry? place).map (·.written) <|> disk.folders.lookup place
  | .nowhere _ => none

/-- True when `path` is no older than `source`. It counts as fresh when its source is missing, but
not when it is missing itself. -/
def isFresh (disk : Disk) (path source : String) : Bool :=
  match disk.time? path, disk.time? source with
  | some time, some sourceTime => sourceTime ≤ time
  | some _, none => true
  | none, _ => false

end Disk
end Quire
