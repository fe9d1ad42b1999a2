import Quire.Fault
import Quire.Text.Cut

/-! Options such as `input=py, caption={A, B}` in an optional argument: pairs of a key and a
value, in their order. Commas and equals signs inside braces or brackets separate nothing. -/
namespace Quire

structure Options where
  pairs : List (String × String)
deriving DecidableEq, Repr

namespace Options

def isOpening (c : Char) : Bool := c == '\x7b' || c == '['

def isClosing (c : Char) : Bool := c == '\x7d' || c == ']'

def prepend (cs : List Char) (parts : List Char × List (List Char)) :
    List Char × List (List Char) :=
  (cs ++ parts.1, parts.2)

/-- The first part and the further parts of a text that is read at `depth` open braces and
brackets; none when they do not pair. A character after a backslash has no meaning. -/
def topLevelParts (sep : Char) (depth : Nat) : List Char → Option (List Char × List (List Char))
  | [] => if depth = 0 then some ([], []) else none
  | ['\\'] => if depth = 0 then some (['\\'], []) else none
  | '\\' :: c :: cs => (topLevelParts sep depth cs).map (prepend ['\\', c])
  | c :: cs =>
    if isOpening c then (topLevelParts sep (depth + 1) cs).map (prepend [c])
    else if isClosing c then
      match depth with
      | 0 => none
      | depth + 1 => (topLevelParts sep depth cs).map (prepend [c])
    else if c = sep ∧ depth = 0 then
      (topLevelParts sep depth cs).map fun (part, parts) => ([], part :: parts)
    else (topLevelParts sep depth cs).map (prepend [c])

def splitTopLevel (sep : Char) (s : String) : Except ReadFault (List String) :=
  match topLevelParts sep 0 s.toList with
  | some (part, parts) => .ok ((part :: parts).map .ofList)
  | none => .error (.unbalanced s)

/-- The text up to the brace that closes the group whose opening brace stands just before. -/
def groupBody? (depth : Nat) : List Char → Option (List Char)
  | [] => none
  | c :: cs =>
    if c = '\x7b' then (groupBody? (depth + 1) cs).map (c :: ·)
    else if c = '\x7d' then
      match depth with
      | 0 => some []
      | depth + 1 => (groupBody? depth cs).map (c :: ·)
    else (groupBody? depth cs).map (c :: ·)

def ungroup (value : String) : String :=
  match value.toList with
  | '\x7b' :: rest =>
    match groupBody? 0 rest with
    | some body => if body.length + 1 = rest.length then .ofList body else value
    | none => value
  | _ => value

def pair (piece : String) : Except ReadFault (String × String) := do
  match ← splitTopLevel '=' piece with
  | [] => return ("", "")
  | [key] => return (Text.trim key, "")
  | key :: _ =>
    let value := String.ofList (piece.toList.drop (key.length + 1))
    return (Text.trim key, ungroup (Text.trim value))

def parse (s : String) : Except ReadFault Options := do
  let pieces ← splitTopLevel ',' s
  return ⟨← (pieces.filter (!Text.allBlank ·)).mapM pair⟩

def get? (options : Options) (key : String) : Option String :=
  (options.pairs.reverse.find? (·.1 == key)).map (·.2)

def getD (options : Options) (key default_ : String) : String :=
  (options.get? key).getD default_

def joined (sep : Char) (parts : List Char × List (List Char)) : List Char :=
  parts.1 ++ parts.2.flatMap (sep :: ·)

@[simp] theorem joined_prepend (sep : Char) (cs : List Char)
    (parts : List Char × List (List Char)) :
    joined sep (prepend cs parts) = cs ++ joined sep parts := by
  simp [joined, prepend]

/-- Nothing but the separators is lost. -/
theorem joined_topLevelParts {sep : Char} {depth : Nat} {cs : List Char}
    {parts : List Char × List (List Char)} (h : topLevelParts sep depth cs = some parts) :
    joined sep parts = cs := by
  fun_induction topLevelParts sep depth cs generalizing parts
  case case1 => cases h; rfl
  case case2 => cases h
  case case3 => cases h; rfl
  case case4 => cases h
  case case7 => cases h
  case case9 c cs _ _ _ _ at_sep ih =>
    obtain ⟨⟨part, more⟩, hinner, rfl⟩ := Option.map_eq_some_iff.mp h
    have := ih hinner
    simp only [joined, List.flatMap_cons, List.nil_append, List.cons_append] at this ⊢
    rw [this, at_sep.1]
  all_goals
    rename_i ih
    obtain ⟨inner, hinner, rfl⟩ := Option.map_eq_some_iff.mp h
    simp [ih hinner]

theorem length_of_mem_joined {sep : Char} {parts : List Char × List (List Char)} {part : List Char}
    (member : part ∈ parts.1 :: parts.2) : part.length ≤ (joined sep parts).length := by
  rcases List.mem_cons.mp member with rfl | member
  · simp [joined]
  · obtain ⟨front, back, eq⟩ := List.append_of_mem member
    simp only [joined, eq, List.flatMap_append, List.flatMap_cons, List.length_append,
      List.length_cons]
    omega

theorem length_of_mem_splitTopLevel {sep : Char} {s piece : String} {pieces : List String}
    (h : splitTopLevel sep s = .ok pieces) (member : piece ∈ pieces) :
    piece.length ≤ s.length := by
  simp only [splitTopLevel] at h
  split at h
  next part parts eq =>
    obtain rfl := Except.ok.inj h
    obtain ⟨cs, inside, rfl⟩ := List.mem_map.mp member
    have := @length_of_mem_joined sep (part, parts) cs inside
    rw [joined_topLevelParts eq, String.length_toList] at this
    rwa [String.length_ofList]
  next => cases h

theorem mem_mapM_ok {f : α → Except ε β} {xs : List α} {ys : List β} {y : β}
    (h : xs.mapM f = .ok ys) (member : y ∈ ys) : ∃ x ∈ xs, f x = .ok y := by
  induction xs generalizing ys with
  | nil =>
    cases h
    cases member
  | cons x xs ih =>
    rw [List.mapM_cons] at h
    cases hx : f x with
    | error e => simp [hx, bind, Except.bind] at h
    | ok first =>
      cases hxs : xs.mapM f with
      | error e => simp [hx, hxs, bind, Except.bind] at h
      | ok more =>
        simp only [hx, hxs, bind, Except.bind] at h
        obtain rfl := Except.ok.inj h
        rcases List.mem_cons.mp member with rfl | member
        · exact ⟨x, by simp, hx⟩
        · obtain ⟨z, inside, hz⟩ := ih hxs member
          exact ⟨z, List.mem_cons_of_mem _ inside, hz⟩

theorem groupBody?_length {depth : Nat} {cs body : List Char}
    (h : groupBody? depth cs = some body) : body.length ≤ cs.length := by
  fun_induction groupBody? depth cs generalizing body
  case case1 => cases h
  case case3 => cases h; simp
  all_goals
    rename_i ih
    obtain ⟨inner, hinner, rfl⟩ := Option.map_eq_some_iff.mp h
    simpa using ih hinner

theorem length_ungroup_le (value : String) : (ungroup value).length ≤ value.length := by
  simp only [ungroup]
  split
  next rest eq =>
    have size : value.length = rest.length + 1 := by
      rw [← String.length_toList, eq, List.length_cons]
    split
    next body hbody =>
      have := groupBody?_length hbody
      split
      · rw [String.length_ofList]
        omega
      · exact Nat.le_refl _
    next => exact Nat.le_refl _
  next => exact Nat.le_refl _

/-- A value is shorter than the text of its pair, unless it is empty. -/
theorem pair_length {piece key value : String} (h : pair piece = .ok (key, value)) :
    value = "" ∨ value.length < piece.length := by
  simp only [pair, bind, Except.bind] at h
  split at h
  · cases h
  next parts _ =>
    match parts with
    | [] => cases h; exact .inl rfl
    | [_] => cases h; exact .inl rfl
    | lead :: _ :: _ =>
      obtain ⟨-, rfl⟩ := Prod.mk.inj (Except.ok.inj h)
      have small := Nat.le_trans (length_ungroup_le _)
        (Text.length_trim_le (.ofList (piece.toList.drop (lead.length + 1))))
      rw [String.length_ofList, List.length_drop, String.length_toList] at small
      rcases Nat.eq_zero_or_pos piece.length with zero | pos
      · left
        apply String.length_eq_zero_iff.mp
        omega
      · right
        omega

/-- A value is shorter than the text of its options, unless it is empty. -/
theorem get?_length {s key value : String} {options : Options} (h : parse s = .ok options)
    (k : options.get? key = some value) : value = "" ∨ value.length < s.length := by
  obtain ⟨⟨name, value'⟩, found, rfl⟩ := Option.map_eq_some_iff.mp k
  have member := List.mem_reverse.mp (List.mem_of_find?_eq_some found)
  simp only [parse, bind, Except.bind] at h
  split at h
  · cases h
  next pieces hpieces =>
    split at h
    · cases h
    next pairs hpairs =>
      obtain rfl := Except.ok.inj h
      obtain ⟨piece, inside, hpair⟩ := mem_mapM_ok hpairs member
      have := length_of_mem_splitTopLevel hpieces (List.mem_filter.mp inside).1
      rcases pair_length hpair with empty | lt
      · exact .inl empty
      · exact .inr (Nat.lt_of_lt_of_le lt this)

end Options
end Quire
