/-! Why a file or a folder cannot be used. -/
namespace Quire

inductive FileProblem
  | missing
  /-- A file or folder has the name already. -/
  | inTheWay
  /-- A file stands where a path goes through a folder. -/
  | notFolder
  | isFolder
  | longName
  /-- A zero character, which no path may hold. -/
  | zeroCharacter
  | notText
  /-- Something that cannot be copied as a file. -/
  | notCopyable
  | denied
  | full
deriving DecidableEq, Repr

def FileProblem.message : FileProblem → String
  | missing => "No such file or directory (os error 2)"
  | inTheWay => "File exists (os error 17)"
  | notFolder => "Not a directory (os error 20)"
  | isFolder => "Is a directory (os error 21)"
  | longName => "File name too long (os error 36)"
  | zeroCharacter => "file name contained an unexpected NUL byte"
  | notText => "stream did not contain valid UTF-8"
  | notCopyable => "the source path is neither a regular file nor a symlink to a regular file"
  | denied => "Permission denied (os error 13)"
  | full => "No space left on device (os error 28)"

end Quire
