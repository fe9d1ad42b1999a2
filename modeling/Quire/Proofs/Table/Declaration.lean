import Quire.Proofs.Text.Numeral
import Quire.Proofs.Text.Trim
import Quire.Table.Columns

/-! Declarations of columns, item by item, and how they are written. What stands in a group is read
back as it was written, whatever braces it holds, so a star repeats the columns of its own items and
nothing else that stands in a group is counted. Main statement: `countColumns_source`. -/
namespace Quire.Table.Declaration

def paired : Nat → List Char → Bool
  | depth, [] => depth == 0
  | depth, c :: cs =>
    if c = '\x7b' then paired (depth + 1) cs
    else if c = '\x7d' then
      match depth with
      | 0 => false
      | depth + 1 => paired depth cs
    else paired depth cs

structure Content where
  text : List Char
  paired : paired 0 text = true

def braced (text : List Char) : List Char := '\x7b' :: (text ++ ['\x7d'])

inductive Item
  | column (c : Char) (letter : c ∈ ['l', 'c', 'r', 'X', 'S'])
  /-- A column with its width. -/
  | wide (c : Char) (letter : c ∈ ['p', 'm', 'b']) (width : Content)
  /-- Something that stands between columns or is set in front of or behind their cells. -/
  | material (c : Char) (sign : c ∈ ['@', '!', '>', '<']) (content : Content)
  | rule
  | blank (c : Char) (blank : Text.isBlank c = true)
  /-- Items that stand as often as a number says, which is written with at least `width` digits. -/
  | repeated (width times : Nat) (small : times < UInt64.size) (items : List Item)

mutual
def Item.source : Item → List Char
  | .column c _ | .blank c _ => [c]
  | .wide c _ content | .material c _ content => c :: braced content.text
  | .rule => ['|']
  | .repeated width times _ items =>
    '*' :: (braced (Text.padded width times).toList ++ braced (source items))

def source : List Item → List Char
  | [] => []
  | item :: items => item.source ++ source items
end

mutual
def Item.columns : Item → Nat
  | .column .. | .wide .. => 1
  | .material .. | .rule | .blank .. => 0
  | .repeated _ times _ items => times * columns items

def columns : List Item → Nat
  | [] => 0
  | item :: items => item.columns + columns items
end

section Groups
variable {c : Char} {depth : Nat} {cs : List Char}

theorem paired_opening : paired depth ('\x7b' :: cs) = paired (depth + 1) cs := by
  simp [paired]

theorem paired_closing : paired (depth + 1) ('\x7d' :: cs) = paired depth cs := by
  simp [paired]

theorem paired_other (opening : c ≠ '\x7b') (closing : c ≠ '\x7d') :
    paired depth (c :: cs) = paired depth cs := by
  simp [paired, opening, closing]

theorem paired_of_plain (plain : ∀ c ∈ cs, c ≠ '\x7b' ∧ c ≠ '\x7d') : paired 0 cs = true := by
  induction cs with
  | nil => rfl
  | cons c cs ih =>
    obtain ⟨opening, closing⟩ := plain c List.mem_cons_self
    rw [paired_other opening closing]
    exact ih fun d member => plain d (List.mem_cons_of_mem c member)

/-- A text whose braces pair leaves open what is open in front of it. -/
theorem paired_append (pairs : paired depth cs = true) (more : Nat) (ds : List Char) :
    paired (depth + more) (cs ++ ds) = paired more ds := by
  fun_induction paired depth cs with
  | case1 depth =>
    obtain rfl : depth = 0 := by simpa using pairs
    rw [Nat.zero_add, List.nil_append]
  | case2 depth cs ih =>
    rw [List.cons_append, paired_opening, Nat.add_right_comm]
    exact ih pairs
  | case3 => cases pairs
  | case4 cs depth _ ih =>
    rw [List.cons_append, Nat.succ_add, paired_closing]
    exact ih pairs
  | case5 depth c cs opening closing ih =>
    rw [List.cons_append, paired_other opening closing]
    exact ih pairs

theorem paired_braced (pairs : paired 0 cs = true) (ds : List Char) :
    paired 0 (braced cs ++ ds) = paired 0 ds := by
  have inner := paired_append pairs 1 ('\x7d' :: ds)
  rw [Nat.zero_add] at inner
  rw [braced, List.cons_append, List.append_assoc, paired_opening]
  exact inner

/-- A text whose braces pair is all that stands in its group. -/
theorem groupAt_paired (pairs : paired depth cs = true) (rest : List Char) :
    groupAt depth (cs ++ '\x7d' :: rest) = (cs, rest) := by
  fun_induction paired depth cs with
  | case1 depth =>
    obtain rfl : depth = 0 := by simpa using pairs
    rfl
  | case2 depth cs ih => simp [groupAt, ih pairs]
  | case3 => cases pairs
  | case4 cs depth _ ih => simp [groupAt, ih pairs]
  | case5 depth c cs opening closing ih => simp [groupAt, opening, closing, ih pairs]

theorem group_braced (pairs : paired 0 cs = true) (rest : List Char) :
    group (braced cs ++ rest) = (cs, rest) := by
  have front : (braced cs ++ rest).dropWhile Text.isBlank = '\x7b' :: (cs ++ '\x7d' :: rest) := by
    rw [braced, List.cons_append, List.dropWhile_cons_of_neg (by decide), List.append_assoc]
    rfl
  rw [group, front]
  exact groupAt_paired pairs rest

end Groups

theorem paired_padded (width times : Nat) : paired 0 (Text.padded width times).toList = true := by
  refine paired_of_plain fun c member => ?_
  have digit : c.isDigit = true := Text.isDigit_of_mem_padded member
  constructor <;> rintro rfl <;> cases digit

mutual
theorem paired_item (item : Item) (ds : List Char) : paired 0 (item.source ++ ds) = paired 0 ds := by
  cases item with
  | column c letter =>
    refine paired_other ?_ ?_ <;> rintro rfl <;> simp at letter
  | wide c letter width =>
    refine (paired_other ?_ ?_).trans (paired_braced width.paired ds) <;> rintro rfl <;>
      simp at letter
  | material c sign content =>
    refine (paired_other ?_ ?_).trans (paired_braced content.paired ds) <;> rintro rfl <;>
      simp at sign
  | rule => exact paired_other (by decide) (by decide)
  | blank c blank =>
    refine paired_other ?_ ?_ <;> rintro rfl <;> cases blank
  | repeated width times small items =>
    have inner : paired 0 (source items) = true := paired_source items
    rw [Item.source, List.cons_append, paired_other (by decide) (by decide), List.append_assoc,
      paired_braced (paired_padded width times), paired_braced inner]

theorem paired_source (items : List Item) : paired 0 (source items) = true := by
  cases items with
  | nil => rfl
  | cons item items => rw [source, paired_item, paired_source]
end

section Count
variable {c : Char} {cs : List Char}

/-- The characters with a meaning of their own. -/
def marks : List Char := ['l', 'c', 'r', 'X', 'S', 'p', 'm', 'b', '@', '!', '>', '<', '*']

theorem countIn_plain (plain : c ∉ marks) : countIn (c :: cs) = countIn cs := by
  simp only [marks, List.mem_cons, List.not_mem_nil, or_false, not_or] at plain
  rw [countIn]
  simp [isColumn, isWideColumn, isMaterial, plain]

theorem countIn_column (letter : c ∈ ['l', 'c', 'r', 'X', 'S']) :
    countIn (c :: cs) = 1 + countIn cs := by
  have column : isColumn c = true := by
    simp only [List.mem_cons, List.not_mem_nil, or_false] at letter
    rcases letter with rfl | rfl | rfl | rfl | rfl <;> rfl
  rw [countIn, if_pos column]

theorem countIn_wide (letter : c ∈ ['p', 'm', 'b']) :
    countIn (c :: cs) = 1 + countIn (group cs).2 := by
  simp only [List.mem_cons, List.not_mem_nil, or_false] at letter
  rw [countIn]
  rcases letter with rfl | rfl | rfl <;> rfl

theorem countIn_material (sign : c ∈ ['@', '!', '>', '<']) :
    countIn (c :: cs) = countIn (group cs).2 := by
  simp only [List.mem_cons, List.not_mem_nil, or_false] at sign
  rw [countIn]
  rcases sign with rfl | rfl | rfl | rfl <;> rfl

theorem countIn_star : countIn ('*' :: cs) =
    ((Text.count? (Text.trim (.ofList (group cs).1))).getD 1) * countIn (group (group cs).2).1 +
      countIn (group (group cs).2).2 := by
  rw [countIn]
  rfl

end Count

mutual
theorem countIn_item (item : Item) (rest : List Char) :
    countIn (item.source ++ rest) = item.columns + countIn rest := by
  cases item with
  | column c letter => exact countIn_column letter
  | wide c letter width =>
    rw [Item.source, List.cons_append, countIn_wide letter, group_braced width.paired]
    rfl
  | material c sign content =>
    rw [Item.source, List.cons_append, countIn_material sign, group_braced content.paired,
      Item.columns, Nat.zero_add]
  | rule =>
    rw [Item.columns, Nat.zero_add]
    exact countIn_plain (by decide)
  | blank c blank =>
    have plain : c ∉ marks := fun member => by
      have solid : marks.all (!Text.isBlank ·) = true := by decide
      simpa [blank] using List.all_eq_true.mp solid c member
    rw [Item.columns, Nat.zero_add]
    exact countIn_plain plain
  | repeated width times small items =>
    have solid : ∀ c ∈ (Text.padded width times).toList, Text.isBlank c = false := fun c member =>
      Text.solid_of_isDigit (Text.isDigit_of_mem_padded member)
    have read : Text.count? (Text.trim (.ofList (Text.padded width times).toList)) = some times := by
      rw [String.ofList_toList, Text.trim_of_solid solid]
      exact Text.numeral?_padded small width
    have inner : countIn (source items) = columns items := countIn_source items
    rw [Item.source, List.cons_append, countIn_star, List.append_assoc,
      group_braced (paired_padded width times), group_braced (paired_source items), read, inner]
    rfl

theorem countIn_source (items : List Item) : countIn (source items) = columns items := by
  cases items with
  | nil => rw [source, countIn, columns]
  | cons item items => rw [source, countIn_item, countIn_source, columns]
end

/-- A declaration that is written from items declares the columns of its items. -/
theorem countColumns_source (items : List Item) :
    countColumns (.ofList (source items)) = columns items := by
  rw [countColumns, String.toList_ofList, countIn_source]

/-- The letters within skipped groups are no columns. -/
example : countColumns "|>\x7b\\raggedright\x7dl*\x7b2\x7d\x7bp\x7b3cm\x7d|\x7d" = 3 := by
  decide +kernel

end Quire.Table.Declaration
