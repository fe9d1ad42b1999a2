import Quire.Braces
import Quire.Disk
import Quire.Labels
import Quire.Prose

/-! Reading the label index from files of records. A record gives a label its number, page,
caption and unit; an include line continues with another file, once. Lines that are neither, and
records that are malformed, say nothing. -/
namespace Quire.Labels

structure Record where
  label : String
  number : String
  /-- The caption as it stands in the record. -/
  caption : String
  unit : String
deriving DecidableEq, Repr

inductive Line
  | include_ (path : String)
  | record (record : Record)
  | other
deriving DecidableEq, Repr

/-- The record behind `\newlabel`: a name, and a body with a number, a page and what else there
is. Names made for clever references say nothing. -/
def Record.ofGroups? : List String → Option Record
  | [name, body] =>
    if (Text.stripEnd? "@cref" name).isSome then none
    else
      match Braces.parse body with
      | .ok (number :: _ :: more) =>
        some ⟨name, number, (more[0]?).getD "", (more[1]?).getD ""⟩
      | _ => none
  | _ => none

def Line.ofString (line : String) : Line :=
  let line := Text.trim line
  match Text.stripStart? "\\@input" line with
  | some rest =>
    match Braces.parse rest with
    | .ok [path] => .include_ path
    | _ => .other
  | none =>
    match Text.stripStart? "\\newlabel" line with
    | some rest =>
      match (Braces.parse rest).toOption >>= Record.ofGroups? with
      | some r => .record r
      | none => .other
    | none => .other

/-- A caption without the commands that only the typesetter needs, as running text. Where it
cannot be read it stays raw. -/
def cleanCaption (target : Target) (raw : String) : String :=
  let caption := raw
    |> Text.replace "\\ignorespaces" ""
    |> Text.replace "\\relax" ""
    |> Text.replace "\\nobreakspace \x7b\x7d" "~"
    |> Text.replace "\\protect" ""
    |> Text.trim
  match Prose.normalize target caption with
  | .ok text => text
  | .error _ => caption

def onLast (f : α → α) : List α → List α
  | [] => []
  | [x] => [f x]
  | x :: y :: xs => x :: onLast f (y :: xs)

/-- A chapter with a further unit in it: a subsection goes into the section before it. -/
def addUnit (entry : TocEntry) (chapter : Chapter) : Chapter :=
  match entry.kind with
  | .section_ => { chapter with sections := chapter.sections ++ [entry] }
  | .subsection =>
    if chapter.sections.isEmpty then { chapter with sections := [entry] }
    else { chapter with
      sections := onLast (fun s => { s with children := s.children ++ [entry] }) chapter.sections }
  | .example_ | .figure | .table => { chapter with floats := chapter.floats ++ [entry] }
  | .chapter | .other => chapter

structure Source where
  /-- The folder that include lines start from. -/
  base : String
  target : Target
  /-- New captions for chapters, by the caption in the records. The last one counts. -/
  renames : List (String × String)

def Source.rename (source : Source) (caption : String) : String :=
  (source.renames.reverse.lookup caption).getD caption

def addRecord (source : Source) (path : String) (index : LabelIndex) (r : Record) : LabelIndex :=
  let kind := UnitKind.classify r.unit r.label
  let caption := cleanCaption source.target r.caption
  let index := index.insert r.label r.number
  if kind = .chapter then
    { index with
      chapters := index.chapters ++
        [⟨index.chapters.length + 1, r.number, r.label, source.rename caption,
          Path.withExtension path "tex", [], []⟩] }
  else
    { index with
      chapters := onLast (addUnit ⟨r.label, r.number, caption, kind, []⟩) index.chapters }

def includes (base text : String) : List String :=
  (Text.lines text).filterMap fun line =>
    match Line.ofString line with
    | .include_ path => some (Path.join base path)
    | _ => none

def mentioned (disk : Disk) (base text : String) : List String :=
  (text :: disk.texts).flatMap (includes base)

structure Progress where
  visited : List String
  index : LabelIndex

def Progress.start : Progress := ⟨[], .empty⟩

def dropPath (file : String) (paths : List String) : List String :=
  paths.filter (!Path.same file ·)

def linesOf (file text : String) : List (String × Line) :=
  (Text.lines text).map fun line => (file, Line.ofString line)

/-- The lines of a file to include: one that exists and is among the unseen ones. -/
def newLines? (disk : Disk) (unseen : List String) (file : String) :
    Option (List (String × Line)) :=
  if unseen.any (Path.same file) then ((disk.readText file).map (linesOf file)).toOption else none

def mostLines (disk : Disk) : Nat := (disk.texts.map fun text => (Text.lines text).length).foldr max 0

theorem le_foldr_max {n : Nat} {all : List Nat} (h : n ∈ all) : n ≤ all.foldr max 0 := by
  induction all with
  | nil => cases h
  | cons m all ih =>
    rw [List.foldr_cons]
    rcases List.mem_cons.mp h with rfl | h
    · exact Nat.le_max_left _ _
    · exact Nat.le_trans (ih h) (Nat.le_max_right _ _)

theorem length_dropPath_lt {disk : Disk} {unseen : List String} {file : String}
    {lines : List (String × Line)} (h : newLines? disk unseen file = some lines) :
    (dropPath file unseen).length < unseen.length := by
  simp only [newLines?] at h
  split at h
  next seen =>
    obtain ⟨p, member, same⟩ := List.any_eq_true.mp seen
    exact List.length_filter_lt_length_iff_exists.mpr ⟨p, member, by simp [same]⟩
  next => cases h

theorem length_newLines_le {disk : Disk} {unseen : List String} {file : String}
    {lines : List (String × Line)} (h : newLines? disk unseen file = some lines) :
    lines.length ≤ mostLines disk := by
  simp only [newLines?] at h
  split at h
  · cases read : disk.readText file with
    | error problem =>
      rw [read] at h
      cases h
    | ok text =>
      rw [read] at h
      obtain rfl := Option.some.inj h
      rw [linesOf, List.length_map]
      exact le_foldr_max (List.mem_map.mpr ⟨text, Disk.mem_texts read, rfl⟩)
  · cases h

/-- Reads lines, each with the path of its file. The lines of an included file come in the place
of the include line, and its path is no longer unseen. -/
def readLines (disk : Disk) (source : Source) (unseen : List String) (progress : Progress) :
    List (String × Line) → Progress
  | [] => progress
  | (_, .other) :: rest => readLines disk source unseen progress rest
  | (path, .record r) :: rest =>
    readLines disk source unseen
      { progress with index := addRecord source path progress.index r } rest
  | (_, .include_ child) :: rest =>
    let file := Path.join source.base child
    match _new : newLines? disk unseen file with
    | some lines =>
      readLines disk source (dropPath file unseen)
        { progress with visited := file :: progress.visited } (lines ++ rest)
    | none => readLines disk source unseen progress rest
termination_by lines => unseen.length * (mostLines disk + 1) + lines.length
decreasing_by
  · simp
  · simp
  · have fewer := Nat.mul_le_mul_right (mostLines disk + 1) (length_dropPath_lt _new)
    have few := length_newLines_le _new
    rw [Nat.succ_mul] at fewer
    simp +zetaDelta only [List.length_append, List.length_cons] at fewer ⊢
    omega
  · simp

def ingest (disk : Disk) (source : Source) (path text : String) (progress : Progress) :
    Progress :=
  let visited := path :: progress.visited
  let unseen := (mentioned disk source.base text).filter fun p => !visited.any (Path.same p)
  readLines disk source unseen { progress with visited } (linesOf path text)

def Source.ofRoot (root : String) (target : Target) (renames : List (String × String)) :
    Source :=
  ⟨(Path.parent? root).getD "", target, renames⟩

def load (disk : Disk) (root : String) (target : Target) (renames : List (String × String)) :
    Except Fault LabelIndex :=
  match disk.readText root with
  | .error problem => .error (.unreadable root problem)
  | .ok text => .ok (ingest disk (.ofRoot root target renames) root text .start).index

end Quire.Labels
