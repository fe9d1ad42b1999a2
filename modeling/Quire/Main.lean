import Quire.Asset.Picture
import Quire.CommandLine

/-! The program. It reads the files below the folder it runs in, does its job on them, and writes
what the job changed. Other programs are not started. A thumbnail gets all dots of its picture, and
the page scales it. -/
namespace Quire.Main

def contentOf (path : String) (bytes : ByteArray) : Content :=
  match String.fromUTF8? bytes with
  | some text => .text text
  | none =>
    let (width, height) := (Picture.size? bytes).getD (0, 0)
    .picture width height path

def pathOf (place : Place) : String := Path.ofPieces true place

def around (home : Place) : Disk where
  files := []
  folders := (["tmp"], 0) :: (List.range home.length).map fun n => (home.take (n + 1), 0)
  now := 0
  home := home

/-- Adds what a folder has to the tree, and all that is below. -/
partial def gather (place : Place) (entries : Array IO.FS.DirEntry) (disk : Disk) : IO Disk := do
  let mut disk := disk
  for entry in entries do
    let inner := place ++ [entry.fileName]
    let modified := (← entry.path.metadata).modified
    let written := modified.sec * 1000000000 + modified.nsec.toNat
    if ← entry.path.isDir then
      disk ← gather inner (← entry.path.readDir)
        { disk with folders := disk.folders ++ [(inner, written)] }
    else
      let bytes ← IO.FS.readBinFile entry.path
      let content := contentOf (pathOf inner) bytes
      disk := { disk with
        files := disk.files ++ [(inner, ⟨content, written⟩)]
        now := max disk.now (written + 1) }
  return disk

/-- Writes the files in which two trees differ. -/
def save (before after : Disk) : IO Unit := do
  for (folder, _) in after.folders do
    if !before.isFolder folder then IO.FS.createDirAll (pathOf folder)
  for (place, entry) in after.files do
    if before.entry? place != some entry then
      let path := pathOf place
      match entry.content with
      | .text text => IO.FS.writeFile path text
      | .picture _ _ origin => IO.FS.writeBinFile path (← IO.FS.readBinFile origin)

end Quire.Main

def main (arguments : List String) : IO UInt32 := do
  let here ← IO.currentDir
  let home := (Quire.Path.pieces here.toString).filter (!Quire.Path.isSilent ·)
  let before ← Quire.Main.gather home (← here.readDir) (Quire.Main.around home)
  let (outcome, after) := Quire.CommandLine.run .offline [] arguments before
  Quire.Main.save before after
  for line in outcome.output do IO.println line
  for line in outcome.complaints do IO.eprintln line
  return outcome.code.toUInt32
