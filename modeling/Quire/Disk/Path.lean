import Quire.Text.Cut

/-! File paths as they are written. Joining keeps both sides as they stand; the parts of a path
are read through repeated slashes and single dots. -/
namespace Quire.Path

def isAbsolute (path : String) : Bool := path.toList.head? = some '/'

def join (base child : String) : String :=
  if isAbsolute child || base.isEmpty then child
  else if base.toList.getLast? = some '/' then base ++ child
  else base ++ "/" ++ child

def pieces (path : String) : List String :=
  let all := Text.splitOn '/' path
  if isAbsolute path then all.drop 1 else all

def isSilent (piece : String) : Bool := piece.isEmpty || piece == "."

def parts (path : String) : List String :=
  let lead := if !isAbsolute path && (pieces path).head? = some "." then ["."] else []
  lead ++ (pieces path).filter (!isSilent ·)

/-- Two paths with the same parts from the same start are one path. -/
def same (a b : String) : Bool := isAbsolute a == isAbsolute b && parts a == parts b

/-- Pieces without those at the end that say nothing. A leading dot of a relative path stays. -/
def dropSilentEnd (relative : Bool) (all : List String) : List String :=
  match Text.dropEndWhile isSilent all with
  | [] => if relative && all.head? = some "." then ["."] else []
  | kept => kept

def ofPieces (absolute : Bool) (all : List String) : String :=
  (if absolute then "/" else "") ++ "/".intercalate all

def parent? (path : String) : Option String :=
  let absolute := isAbsolute path
  match (dropSilentEnd (!absolute) (pieces path)).reverse with
  | [] => none
  | _ :: front => some (ofPieces absolute (dropSilentEnd (!absolute) front.reverse))

def fileName? (path : String) : Option String :=
  match (parts path).getLast? with
  | some last => if last = "." || last = ".." then none else some last
  | none => none

/-- A file name cut at its last dot, unless the dot is its first character. -/
def cutName (name : String) : String × Option String :=
  match (Text.splitOn '.' name).reverse with
  | last :: front =>
    let stem := ".".intercalate front.reverse
    if stem.isEmpty then (name, none) else (stem, some last)
  | [] => (name, none)

def extension? (path : String) : Option String := fileName? path >>= fun name => (cutName name).2

def stem? (path : String) : Option String := (fileName? path).map fun name => (cutName name).1

def withFileName (path name : String) : String :=
  if (fileName? path).isSome then join ((parent? path).getD "") name else join path name

def cutExtension (path : String) : String :=
  .ofList (path.toList.take (path.length - ((extension? path).getD "").length))

/-- The path with another extension: the one it has goes first. A path that names no file, or none
any more, gets no extension. -/
def withExtension (path extension : String) : String :=
  let path := cutExtension path
  match stem? path, (dropSilentEnd (!isAbsolute path) (pieces path)).reverse with
  | some stem, _ :: front =>
    ofPieces (isAbsolute path) (front.reverse ++ [stem ++ "." ++ extension])
  | _, _ => path

/-- The folders on the way to a path and the path itself, from the outermost one; `fuel` bounds
their number. -/
def chain : Nat → String → List String
  | 0, _ => []
  | fuel + 1, path =>
    if path.isEmpty then []
    else ((parent? path).map (chain fuel)).getD [] ++ [path]

def ancestors (path : String) : List String := chain path.length path

end Quire.Path
