import Quire.Fault

/-! The brace groups of a record. Text between groups means nothing, and neither does a character
after a backslash. -/
namespace Quire.Braces

def keep (depth : Nat) (cs : List Char) :
    List Char × List (List Char) → List Char × List (List Char)
  | (group, groups) => if depth = 0 then (group, groups) else (cs ++ group, groups)

/-- The rest of the group that is being read at `depth` open braces, and the groups after it;
none when the braces do not pair. -/
def groupsAt (depth : Nat) : List Char → Option (List Char × List (List Char))
  | [] => if depth = 0 then some ([], []) else none
  | ['\\'] => if depth = 0 then some ([], []) else none
  | '\\' :: c :: cs => (groupsAt depth cs).map (keep depth ['\\', c])
  | c :: cs =>
    if c = '\x7b' then
      match depth with
      | 0 => (groupsAt 1 cs).map fun (group, groups) => ([], group :: groups)
      | depth + 1 => (groupsAt (depth + 2) cs).map (keep (depth + 1) [c])
    else if c = '\x7d' then
      match depth with
      | 0 => none
      | 1 => (groupsAt 0 cs).map fun (_, groups) => ([], groups)
      | depth + 2 => (groupsAt (depth + 1) cs).map (keep (depth + 2) [c])
    else (groupsAt depth cs).map (keep depth [c])

def parse (s : String) : Except ReadFault (List String) :=
  match groupsAt 0 s.toList with
  | some (_, groups) => .ok (groups.map .ofList)
  | none => .error (.unbalanced s)

end Quire.Braces
