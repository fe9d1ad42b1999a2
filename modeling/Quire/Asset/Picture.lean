import Quire.Asset

/-! Pictures of the two formats that pages show, and the tools for them. -/
namespace Quire.Picture

def word? (bytes : ByteArray) (i : Nat) : Option Nat := do
  let high ← bytes[i]?
  let low ← bytes[i + 1]?
  return 256 * high.toNat + low.toNat

def pngSize? (bytes : ByteArray) : Option (Nat × Nat) := do
  let signature := [0x89, 0x50, 0x4E, 0x47, 0x0D, 0x0A, 0x1A, 0x0A]
  if (bytes.extract 0 8).toList.map UInt8.toNat != signature then none
  else
    let width := 65536 * (← word? bytes 16) + (← word? bytes 18)
    let height := 65536 * (← word? bytes 20) + (← word? bytes 22)
    return (width, height)

def isFrame (marker : UInt8) : Bool :=
  0xC0 ≤ marker && marker ≤ 0xCF && marker != 0xC4 && marker != 0xC8 && marker != 0xCC

def frameSize? (bytes : ByteArray) (i : Nat) : Option (Nat × Nat) :=
  if i < bytes.size then
    match bytes[i]?, bytes[i + 1]?, word? bytes (i + 2) with
    | some 0xFF, some marker, some length =>
      if isFrame marker then do
        let height ← word? bytes (i + 5)
        let width ← word? bytes (i + 7)
        return (width, height)
      else frameSize? bytes (i + 2 + length)
    | _, _, _ => none
  else none
termination_by bytes.size - i

def size? (bytes : ByteArray) : Option (Nat × Nat) :=
  match pngSize? bytes with
  | some size => some size
  | none => if bytes[0]? = some 0xFF ∧ bytes[1]? = some 0xD8 then frameSize? bytes 2 else none

inductive Format
  | png
  | jpeg
  | other (name : String)
deriving DecidableEq, Repr

def Format.ofExtension? (extension : String) : Option Format :=
  match extension.map Char.toLower with
  | "png" | "apng" => some png
  | "jpg" | "jpeg" => some jpeg
  | "gif" => some (other "Gif")
  | "webp" => some (other "WebP")
  | "tif" | "tiff" => some (other "Tiff")
  | "bmp" => some (other "Bmp")
  | "ico" => some (other "Ico")
  | _ => none

def Format.problem (format : Format) (content : String) : String :=
  let bytes := content.toUTF8.toList
  match format, bytes with
  | other name, _ => "The image format " ++ name ++ " is not supported"
  | png, _ :: _ :: _ :: _ :: _ => "Format error decoding Png: Invalid PNG signature."
  | jpeg, high :: low :: _ =>
    "Format error decoding Jpeg: Error parsing image. Illegal start bytes:" ++
      .ofList ((Nat.toDigits 16 (256 * high.toNat + low.toNat)).map Char.toUpper)
  | _, _ => "unexpected end of file"

def measure (path : String) (content : Content) : Except String (Nat × Nat) :=
  match Path.extension? path >>= Format.ofExtension?, content with
  | none, _ => .error "The image format could not be determined"
  | some (.other name), _ => .error ((Format.other name).problem "")
  | some format, .picture width height _ =>
    if 0 < width && 0 < height then .ok (width, height) else .error (format.problem "")
  | some format, .text text => .error (format.problem text)

def shrink (size : Nat) : Content → Content
  | .picture width height origin =>
    let longest := max width height
    .picture (max 1 (width * size / longest)) (max 1 (height * size / longest)) origin
  | content => content

end Quire.Picture

namespace Quire.Asset.Tools

def scratchFolder (n : Nat) : String := Path.join "/tmp" (".tmp" ++ toString n)

def isUnused (disk : Disk) (path : String) : Bool :=
  match disk.locate path with
  | .nowhere _ => true
  | .place place =>
    disk.files.all (!place.isPrefixOf ·.1) && disk.folders.all (!place.isPrefixOf ·.1)

/-- A folder for scratch files that is not there yet. One of as many names as there are files and
folders, and one more, is not in use. -/
def unusedFolder (disk : Disk) : String :=
  let names := (List.range (disk.files.length + disk.folders.length + 1)).map scratchFolder
  (names.find? (isUnused disk)).getD ""

/-- The tools where no other program is installed. -/
def offline : Tools where
  run _ _ disk := (.exited none, disk)
  scratch := unusedFolder
  measure := Picture.measure
  shrink := Picture.shrink

end Quire.Asset.Tools
