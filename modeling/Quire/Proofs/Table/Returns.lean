import Quire.Proofs.Prose.Returns
import Quire.Table.Cells
import Quire.Table.Columns

/-! Tables whose lines end in carriage returns too. They are cut into the same cells and rows, and
they declare as many columns. -/
namespace Quire

open Text (returned returnedLength LineFree)

namespace Text

/-- A number stands on one line. -/
theorem line_of_numeral? {bound n : Nat} {s : String} (found : numeral? bound s = some n) :
    '\n' ∉ s.toList := by
  have digits (cs : List Char) (all : ¬ (cs.isEmpty || !cs.all Char.isDigit) = true) : '\n' ∉ cs := by
    intro member
    have isDigit : cs.all Char.isDigit = true := by
      simp only [Bool.or_eq_true, not_or, Bool.not_eq_true', Bool.not_eq_false] at all
      exact all.2
    exact absurd (List.all_eq_true.mp isDigit _ member) (by decide)
  unfold numeral? at found
  split at found
  next signed =>
    dsimp only at found
    split at found
    · cases found
    next all =>
      rw [signed]
      exact List.not_mem_cons_of_ne_of_not_mem (by decide) (digits _ all)
  next =>
    dsimp only at found
    split at found
    · cases found
    next all => exact digits _ all

theorem count?_withReturns (s : String) : count? (withReturns s) = count? s := by
  by_cases line : '\n' ∈ s.toList
  · have none_ (t : String) (line : '\n' ∈ t.toList) : count? t = none :=
      Option.eq_none_iff_forall_not_mem.mpr fun _ found => line_of_numeral? found line
    rw [none_ s line, none_ _ (by rwa [toList_withReturns, mem_returned (by decide)])]
  · rw [withReturns_eq_self line]

end Text
namespace Table

variable {c : Char} {cs : List Char}

def CellToken.withReturns : CellToken → CellToken
  | text content => text (Text.withReturns content)
  | column => column
  | row => row

def CellParts.withReturns (parts : CellParts) : CellParts :=
  (returned parts.1, parts.2.map CellToken.withReturns)

theorem CellParts.close_withReturns (parts : CellParts) :
    parts.withReturns.close = parts.close.map CellToken.withReturns := by
  obtain ⟨text, tokens⟩ := parts
  cases text with
  | nil => rfl
  | cons c text =>
    have some_ : returned (c :: text) ≠ [] := by simp
    obtain ⟨d, ds, split⟩ := List.exists_cons_of_ne_nil some_
    have spelled : Text.withReturns (.ofList (c :: text)) = .ofList (d :: ds) := by
      rw [Text.withReturns_ofList, split]
    simp only [CellParts.close, CellParts.withReturns, split, List.map_cons,
      CellToken.withReturns, spelled]

theorem CellParts.prepend_withReturns (cs : List Char) (parts : CellParts) :
    (parts.prepend cs).withReturns = parts.withReturns.prepend (returned cs) := by
  simp only [CellParts.prepend, CellParts.withReturns, Text.returned_append]

theorem lineLength_eq (cs : List Char) : lineLength cs = Prose.commentLength cs := by
  rw [lineLength, Prose.commentLength]
  cases Text.before? ['\n'] cs <;> rfl

theorem skipLength_returned (cs : List Char) :
    skipLength (returned cs) = returnedLength cs (skipLength cs) := by
  by_cases bracket : cs.head? = some '['
  · obtain ⟨rest, rfl⟩ := List.head?_eq_some_iff.mp bracket
    rw [Text.returned_cons (by decide), skipLength, skipLength, Text.before?_returned (by decide) (by simp)]
    cases found : Text.before? [']'] rest with
    | none => rfl
    | some space =>
      have starts : '[' :: (space ++ [']']) <+: '[' :: rest :=
        List.cons_prefix_cons.mpr ⟨rfl, Text.prefix_of_before? found⟩
      have used : (some space).map (·.length + 2) = some ('[' :: (space ++ [']'])).length := by simp
      rw [used, Option.getD_some, Text.returnedLength_of_prefix starts, Text.returned_cons (by decide),
        Text.returned_append, Text.returned_cons (by decide)]
      simp
  · have none_ (cs : List Char) (bracket : cs.head? ≠ some '[') : skipLength cs = 0 := by
      unfold skipLength
      split
      next => simp at bracket
      next => rfl
    rw [none_ _ bracket, none_ _ (mt (Text.head?_returned_iff (by decide)).mp bracket)]
    rfl

theorem cellParts_cons (slash : c ≠ '\\') (cs : List Char) : cellParts (c :: cs) =
    if c = '%' then ([], (cellParts (cs.drop (lineLength cs))).close)
    else if c = '&' then ([], .column :: (cellParts cs).close)
    else (cellParts cs).prepend [c] := by
  rw [cellParts]
  · exact fun _ same _ => slash same
  · exact fun _ _ same _ => slash same

theorem cellParts_escape (other : c ≠ '\\') (cs : List Char) :
    cellParts ('\\' :: c :: cs) = (cellParts cs).prepend ['\\', c] := by
  rw [cellParts]
  exact other

theorem cellParts_returned (cs : List Char) :
    cellParts (returned cs) = (cellParts cs).withReturns := by
  induction cs using cellParts.induct with
  | case1 => rw [Text.returned_nil, cellParts]; rfl
  | case2 cs ih =>
    rw [Text.returned_cons (by decide), Text.returned_cons (by decide), cellParts, cellParts,
      skipLength_returned, Text.drop_returned, ih, CellParts.close_withReturns]
    rfl
  | case3 c cs apart ih =>
    rw [cellParts_escape apart, CellParts.prepend_withReturns, ← ih]
    by_cases feed : c = '\n'
    · subst feed
      rw [Text.returned_cons (by decide), Text.returned_feed, cellParts_escape (by decide),
        cellParts_cons (by decide), if_neg (by decide), if_neg (by decide)]
      rfl
    · rw [Text.returned_cons (by decide), Text.returned_cons feed, cellParts_escape apart,
        Text.returned_cons (by decide), Text.returned_cons feed]
      rfl
  | case4 cs _ _ ih =>
    rw [Text.returned_cons (by decide), cellParts_cons (by decide), cellParts_cons (by decide),
      if_pos rfl, if_pos rfl, lineLength_eq, Prose.commentLength_returned, Text.drop_returned,
      ← lineLength_eq, ih, CellParts.close_withReturns]
    rfl
  | case5 cs _ _ _ ih =>
    rw [Text.returned_cons (by decide), cellParts_cons (by decide), cellParts_cons (by decide),
      if_neg (by decide), if_pos rfl, if_neg (by decide), if_pos rfl, ih,
      CellParts.close_withReturns]
    rfl
  | case6 c cs _ alone percent column ih =>
    by_cases slash : c = '\\'
    · subst slash
      cases cs with
      | nil =>
        have lone : cellParts ['\\'] = (cellParts []).prepend ['\\'] := by simp [cellParts]
        rw [lone, CellParts.prepend_withReturns, ← ih]
        exact lone
      | cons d cs => exact absurd rfl (alone d cs rfl)
    rw [cellParts_cons slash, if_neg percent, if_neg column, CellParts.prepend_withReturns, ← ih]
    by_cases feed : c = '\n'
    · subst feed
      rw [Text.returned_feed, cellParts_cons (by decide), if_neg (by decide), if_neg (by decide),
        cellParts_cons (by decide), if_neg (by decide), if_neg (by decide)]
      rfl
    · rw [Text.returned_cons feed, cellParts_cons slash, if_neg percent, if_neg column,
        Text.returned_cons feed]
      rfl

/-- A table is cut at the same separators. -/
theorem splitCells_withReturns (raw : String) :
    splitCells (Text.withReturns raw) = (splitCells raw).map CellToken.withReturns := by
  rw [splitCells, Text.toList_withReturns, cellParts_returned, CellParts.close_withReturns, splitCells]

theorem groupAt_returned (depth : Nat) (cs : List Char) :
    groupAt depth (returned cs) = (returned (groupAt depth cs).1, returned (groupAt depth cs).2) := by
  induction cs generalizing depth with
  | nil => rfl
  | cons c cs ih =>
    by_cases feed : c = '\n'
    · subst feed
      simp [groupAt, ih]
    · rw [Text.returned_cons feed]
      simp only [groupAt]
      split
      · simp [ih, Text.returned_cons feed]
      split
      · cases depth <;> simp [ih, Text.returned_cons feed]
      · simp [ih, Text.returned_cons feed]

theorem group_returned (cs : List Char) :
    group (returned cs) = (returned (group cs).1, returned (group cs).2) := by
  have front := Text.dropWhile_returned (p := Text.isBlank) rfl cs
  by_cases brace : (cs.dropWhile Text.isBlank).head? = some '\x7b'
  · obtain ⟨rest, split⟩ := List.head?_eq_some_iff.mp brace
    rw [split, Text.returned_cons (by decide)] at front
    simp only [group, front, split, groupAt_returned]
  · have none_ {cs : List Char} (brace : (cs.dropWhile Text.isBlank).head? ≠ some '\x7b') :
        group cs = ([], cs.dropWhile Text.isBlank) := by
      unfold group
      split
      next eq => simp [eq] at brace
      next => rfl
    have brace' : ((returned cs).dropWhile Text.isBlank).head? ≠ some '\x7b' := by
      rw [front]
      exact mt (Text.head?_returned_iff (by decide)).mp brace
    rw [none_ brace, none_ brace', front]
    rfl

theorem countIn_returned (cs : List Char) : countIn (returned cs) = countIn cs := by
  have trimmed (cs : List Char) : Text.count? (Text.trim (.ofList (returned cs))) =
      Text.count? (Text.trim (.ofList cs)) := by
    rw [← Text.withReturns_ofList, Text.trim_withReturns, Text.count?_withReturns]
  induction size : cs.length using Nat.strong_induction_on generalizing cs with
  | _ size ih =>
    cases cs with
    | nil => rfl
    | cons c cs =>
      rw [List.length_cons] at size
      have first := group_length cs
      have second := group_length (group cs).2
      by_cases feed : c = '\n'
      · subst feed
        have same := ih cs.length (by omega) cs rfl
        rw [Text.returned_feed, countIn, countIn, countIn, same]
        rfl
      · have whole := ih cs.length (by omega) cs rfl
        have behind := ih (group cs).2.length (by omega) _ rfl
        have inner := ih (group (group cs).2).1.length (by omega) _ rfl
        have last := ih (group (group cs).2).2.length (by omega) _ rfl
        rw [Text.returned_cons feed, countIn, countIn]
        simp only [group_returned, trimmed, whole, behind, inner, last]

theorem countColumns_withReturns (spec : String) :
    countColumns (Text.withReturns spec) = countColumns spec := by
  rw [countColumns, Text.toList_withReturns, countIn_returned, countColumns]

end Table
end Quire
