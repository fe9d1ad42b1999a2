import Quire.Disk
import Quire.Fault

/-! Files that a source includes. A line is searched up to its first percent sign, and its first
include gives way to the text of the file. Included files are read in the same way, down to a
depth. -/
namespace Quire.Include

/-- A part of a source: text as it stands, or the name of a file in its place. -/
inductive Piece
  | text (content : List Char)
  | file (name : List Char)
deriving DecidableEq, Repr

def openings : List (List Char) := ["\\input\x7b".toList, "\\include\x7b".toList]

def name? (cs : List Char) : Option (List Char × List Char) := do
  let rest ← openings.findSome? (·.isPrefixOf? cs)
  match Text.splitOnce? ['\x7d'] rest with
  | some (name, behind) => if name.isEmpty then none else some (name, behind)
  | none => none

/-- The first include of a line: what stands before it, its name, and what follows it. -/
def find? : List Char → Option (List Char × List Char × List Char)
  | [] => none
  | c :: cs =>
    match name? (c :: cs) with
    | some (name, behind) => some ([], name, behind)
    | none =>
      if c = '%' ∨ c = '\n' then none
      else (find? cs).map fun (front, found) => (c :: front, found)

def line : List Char → List Char × List Char
  | [] => ([], [])
  | c :: cs => if c = '\n' then ([c], cs) else (c :: (line cs).1, (line cs).2)

theorem length_line (cs : List Char) : (line cs).2.length ≤ cs.length := by
  induction cs with
  | nil => simp [line]
  | cons c cs ih =>
    simp only [line]
    split
    · simp
    · simp only [List.length_cons]
      omega

theorem length_isPrefixOf? {opening cs rest : List Char} (h : opening.isPrefixOf? cs = some rest) :
    rest.length ≤ cs.length := by
  induction opening generalizing cs with
  | nil =>
    obtain rfl : cs = rest := Option.some.inj h
    exact Nat.le_refl _
  | cons c opening ih =>
    cases cs with
    | nil => cases h
    | cons d cs =>
      change (if c == d then opening.isPrefixOf? cs else none) = some rest at h
      split at h
      · have := ih h
        simp only [List.length_cons]
        omega
      · cases h

theorem length_name? {cs name behind : List Char} (h : name? cs = some (name, behind)) :
    behind.length < cs.length := by
  obtain ⟨rest, opened, h⟩ := Option.bind_eq_some_iff.mp h
  obtain ⟨opening, -, found⟩ := List.exists_of_findSome?_eq_some opened
  have shorter := length_isPrefixOf? found
  split at h
  next name' behind' eq =>
    split at h
    · cases h
    · obtain ⟨-, rfl⟩ := Prod.mk.inj (Option.some.inj h)
      obtain ⟨before, found, pair⟩ := Option.map_eq_some_iff.mp eq
      obtain ⟨-, rfl⟩ := Prod.mk.inj pair
      have := Text.before?_length found
      simp only [List.length_cons, List.length_nil] at this
      simp only [List.length_drop, List.length_cons, List.length_nil]
      omega
  next => cases h

theorem length_find? {cs front name behind : List Char}
    (h : find? cs = some (front, name, behind)) : behind.length < cs.length := by
  induction cs generalizing front with
  | nil => cases h
  | cons c cs ih =>
    simp only [find?] at h
    split at h
    next name' behind' eq =>
      cases h
      exact length_name? eq
    next =>
      split at h
      · cases h
      · obtain ⟨⟨front', found⟩, inner, eq⟩ := Option.map_eq_some_iff.mp h
        cases eq
        have := ih inner
        simp only [List.length_cons]
        omega

/-- The pieces of a source. At the start of a line an include is looked for; behind one the line
goes on as it stands. -/
def pieces (start : Bool) (cs : List Char) : List Piece :=
  match cs with
  | [] => []
  | c :: cs =>
    match _found : if start then find? (c :: cs) else none with
    | some (front, name, behind) => .text front :: .file name :: pieces false behind
    | none =>
      match _line : line (c :: cs) with
      | (text, rest) => .text text :: pieces true rest
termination_by cs.length
decreasing_by
  · split at _found
    · exact length_find? _found
    · cases _found
  · simp only [line] at _line
    split at _line
    · cases _line
      simp
    · cases _line
      have := length_line cs
      simp only [List.length_cons]
      omega

def path (base : String) (name : List Char) : String :=
  let path := Path.join base (Text.trim (.ofList name))
  if (Path.extension? path).isNone then Path.withExtension path "tex" else path

/-- How deep files are included in one another. Deeper includes stay as they are. -/
def maxDepth : Nat := 16

/-- The text of a file with what it includes, down to `depth`. A file that cannot be read is a
fault, and of several the first one counts. -/
def expand (disk : Disk) (base : String) : Nat → String → Except Fault String
  | depth, file =>
    match disk.readText file with
    | .error problem => .error (.unreadable file problem)
    | .ok source =>
      match depth with
      | 0 => .ok source
      | depth + 1 =>
        String.join <$> (pieces true source.toList).mapM fun
          | .text content => .ok (.ofList content)
          | .file name => expand disk base depth (path base name)

end Quire.Include
