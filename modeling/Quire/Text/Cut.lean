import Quire.Text.Blank

/-! Cutting a text at a pattern: before and after its first occurrence, at every occurrence, and
into lines. Each cut of a list leaves a rest that is no longer than the list. -/
namespace Quire.Text

def before? (pattern : List Char) : List Char → Option (List Char)
  | [] => if pattern.isEmpty then some [] else none
  | c :: cs =>
    if pattern.isPrefixOf (c :: cs) then some [] else (before? pattern cs).map (c :: ·)

def splitOnce? (pattern : List Char) (cs : List Char) : Option (List Char × List Char) :=
  (before? pattern cs).map fun b => (b, cs.drop (b.length + pattern.length))

theorem before?_length {pattern cs b : List Char} (h : before? pattern cs = some b) :
    b.length + pattern.length ≤ cs.length := by
  induction cs generalizing b with
  | nil =>
    simp only [before?] at h
    split at h
    · obtain rfl := Option.some.inj h
      simp_all
    · cases h
  | cons c cs ih =>
    simp only [before?] at h
    split at h
    next hp =>
      obtain rfl := Option.some.inj h
      have starts := List.isPrefixOf_iff_prefix.mp hp
      simpa using starts.length_le
    next =>
      obtain ⟨b', hb, rfl⟩ := Option.map_eq_some_iff.mp h
      have := ih hb
      simp only [List.length_cons]
      omega

/-- Every occurrence of `pattern`, read from the left and without overlaps, becomes `new`.
An empty pattern occurs nowhere. -/
def replaceChars (pattern new : List Char) (cs : List Char) : List Char :=
  match pattern, cs with
  | [], cs => cs
  | _, [] => []
  | p :: ps, c :: cs =>
    if (p :: ps).isPrefixOf (c :: cs) then
      new ++ replaceChars (p :: ps) new (cs.drop ps.length)
    else c :: replaceChars (p :: ps) new cs
termination_by cs.length
decreasing_by
  · simp only [List.length_drop, List.length_cons]
    omega
  · exact Nat.lt_succ_self cs.length

def replace (pattern new : String) (s : String) : String :=
  .ofList (replaceChars pattern.toList new.toList s.toList)

/-- The parts of a text between the characters that satisfy `p`; one more than there are such
characters. -/
def splitChars (p : Char → Bool) : List Char → List (List Char)
  | [] => [[]]
  | c :: cs =>
    if p c then [] :: splitChars p cs
    else match splitChars p cs with
      | [] => [[c]]
      | part :: parts => (c :: part) :: parts

def splitOn (c : Char) (s : String) : List String :=
  (splitChars (· == c) s.toList).map .ofList

def dropReturn (cs : List Char) : List Char :=
  if cs.getLast? = some '\r' then cs.dropLast else cs

/-- The lines of a text. A newline ends a line and starts none of its own, and a carriage return
just before a newline belongs to the line end. -/
def lines (s : String) : List String :=
  let parts := splitChars (· == '\n') s.toList
  let ended := parts.dropLast.map (String.ofList ∘ dropReturn)
  match parts.getLast? with
  | none | some [] => ended
  | some last => ended ++ [.ofList last]

def stripStart? (start s : String) : Option String :=
  (start.toList.isPrefixOf? s.toList).map .ofList

def stripEnd? (ending s : String) : Option String :=
  (ending.toList.reverse.isPrefixOf? s.toList.reverse).map fun cs => .ofList cs.reverse

def repeated (s : String) (n : Nat) : String := String.join (List.replicate n s)

end Quire.Text
