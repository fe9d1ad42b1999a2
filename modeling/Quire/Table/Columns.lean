import Quire.Text.Cut
import Quire.Text.Numeral

/-! The number of columns that the first argument of a table declares. -/
namespace Quire.Table

/-- The text up to the brace that closes a group, and what follows the brace; `depth` further
groups are open. A group that nothing closes takes all. -/
def groupAt (depth : Nat) : List Char → List Char × List Char
  | [] => ([], [])
  | c :: cs =>
    let keep (parts : List Char × List Char) := (c :: parts.1, parts.2)
    if c = '\x7b' then keep (groupAt (depth + 1) cs)
    else if c = '\x7d' then
      match depth with
      | 0 => ([], cs)
      | depth + 1 => keep (groupAt depth cs)
    else keep (groupAt depth cs)

def group (cs : List Char) : List Char × List Char :=
  match cs.dropWhile Text.isBlank with
  | '\x7b' :: rest => groupAt 0 rest
  | rest => ([], rest)

theorem groupAt_length (depth : Nat) (cs : List Char) :
    (groupAt depth cs).1.length ≤ cs.length ∧ (groupAt depth cs).2.length ≤ cs.length := by
  induction cs generalizing depth with
  | nil => simp [groupAt]
  | cons c cs ih =>
    simp only [groupAt]
    split
    · have := ih (depth + 1)
      simp only [List.length_cons]
      omega
    · split
      · cases depth with
        | zero => simp
        | succ depth =>
          have := ih depth
          simp only [List.length_cons]
          omega
      · have := ih depth
        simp only [List.length_cons]
        omega

theorem group_length (cs : List Char) :
    (group cs).1.length ≤ cs.length ∧ (group cs).2.length ≤ cs.length := by
  have shorter : (cs.dropWhile Text.isBlank).length ≤ cs.length :=
    (List.dropWhile_suffix Text.isBlank).length_le
  unfold group
  split
  next rest h =>
    have := groupAt_length 0 rest
    rw [h] at shorter
    simp only [List.length_cons] at shorter
    omega
  next => simp [shorter]

def isColumn (c : Char) : Bool := c == 'l' || c == 'c' || c == 'r' || c == 'X' || c == 'S'

/-- Letters that declare a column and take a group. -/
def isWideColumn (c : Char) : Bool := c == 'p' || c == 'm' || c == 'b'

def isMaterial (c : Char) : Bool := c == '@' || c == '!' || c == '>' || c == '<'

/-- Counts the columns of a declaration. A star repeats its second group as often as its first
says, once when that is no number. -/
def countIn : List Char → Nat
  | [] => 0
  | c :: cs =>
    if isColumn c then 1 + countIn cs
    else if isWideColumn c then 1 + countIn (group cs).2
    else if isMaterial c then countIn (group cs).2
    else if c = '*' then
      let times := (Text.count? (Text.trim (.ofList (group cs).1))).getD 1
      times * countIn (group (group cs).2).1 + countIn (group (group cs).2).2
    else countIn cs
termination_by cs => cs.length
decreasing_by
  all_goals
    have first := group_length cs
    have second := group_length (group cs).2
    simp only [List.length_cons]
    omega

def countColumns (spec : String) : Nat := countIn spec.toList

end Quire.Table
