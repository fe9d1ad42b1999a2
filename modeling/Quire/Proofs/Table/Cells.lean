import Mathlib.Data.List.Infix
import Quire.Proofs.Table.Returns
import Quire.Proofs.Text.Cut

/-! What the cells and separators of a table keep of its text: all but the comments and the bracketed
space behind a row separator. How a text is read is one relation, `Reads`; what it keeps and that its
cells cannot be cut further are each shown by induction on it. -/
namespace Quire.Table

/-- The second text is the first without its comments and without the bracketed space behind its row
separators. -/
inductive Kept : List Char → List Char → Prop
  | nil : Kept [] []
  | trailing : Kept ['\\'] ['\\']
  /-- What is not closed in brackets is no space. -/
  | row {cs kept : List Char} (unspaced : cs.head? = some '[' → ']' ∉ cs) :
      Kept cs kept → Kept ('\\' :: '\\' :: cs) ('\\' :: '\\' :: kept)
  | spaced {space cs kept : List Char} (inner : ']' ∉ space) :
      Kept cs kept → Kept ('\\' :: '\\' :: '[' :: (space ++ ']' :: cs)) ('\\' :: '\\' :: kept)
  | escape {c : Char} {cs kept : List Char} (single : c ≠ '\\') :
      Kept cs kept → Kept ('\\' :: c :: cs) ('\\' :: c :: kept)
  | comment {note cs kept : List Char} (line : '\n' ∉ note) :
      Kept cs kept → Kept ('%' :: (note ++ '\n' :: cs)) kept
  | lastComment {note : List Char} (line : '\n' ∉ note) : Kept ('%' :: note) []
  | other {c : Char} {cs kept : List Char} (slash : c ≠ '\\') (percent : c ≠ '%') :
      Kept cs kept → Kept (c :: cs) (c :: kept)

/-- No place of the text can be cut: each ampersand and percent sign is escaped, and no two
backslashes stand together. -/
inductive Uncut : List Char → Prop
  | nil : Uncut []
  | trailing : Uncut ['\\']
  | escape {c : Char} {cs : List Char} (single : c ≠ '\\') : Uncut cs → Uncut ('\\' :: c :: cs)
  | other {c : Char} {cs : List Char} (slash : c ≠ '\\') (percent : c ≠ '%') (column : c ≠ '&') :
      Uncut cs → Uncut (c :: cs)

def CellToken.written : CellToken → List Char
  | text content => content.toList
  | column => ['&']
  | row => ['\\', '\\']

theorem written_close (parts : CellParts) :
    parts.close.flatMap CellToken.written = parts.1 ++ parts.2.flatMap CellToken.written := by
  obtain ⟨text, tokens⟩ := parts
  cases text with
  | nil => rfl
  | cons c text =>
    rw [CellParts.close, List.flatMap_cons, CellToken.written, String.toList_ofList]
    exact List.cons_ne_nil c text

theorem skipLength_cases (cs : List Char) :
    ((cs.head? = some '[' → ']' ∉ cs) ∧ skipLength cs = 0) ∨
      ∃ space rest, ']' ∉ space ∧ cs = '[' :: (space ++ ']' :: rest) ∧
        skipLength cs = space.length + 2 := by
  by_cases bracket : cs.head? = some '['
  · obtain ⟨behind, rfl⟩ := List.head?_eq_some_iff.mp bracket
    by_cases closed : ']' ∈ behind
    · obtain ⟨space, rest, rfl, inner⟩ := List.eq_append_cons_of_mem closed
      refine .inr ⟨space, rest, inner, rfl, ?_⟩
      rw [skipLength, Text.before?_singleton inner]
      rfl
    · refine .inl ⟨fun _ => List.not_mem_cons_of_ne_of_not_mem (by decide) closed, ?_⟩
      rw [skipLength, Text.before?_singleton_eq_none_iff.mpr closed]
      rfl
  · refine .inl ⟨fun starts => absurd starts bracket, ?_⟩
    unfold skipLength
    split
    next => simp at bracket
    next => rfl

theorem lineLength_cases (cs : List Char) :
    ('\n' ∉ cs ∧ lineLength cs = cs.length) ∨
      ∃ note rest, '\n' ∉ note ∧ cs = note ++ '\n' :: rest ∧ lineLength cs = note.length + 1 := by
  by_cases ended : '\n' ∈ cs
  · obtain ⟨note, rest, rfl, line⟩ := List.eq_append_cons_of_mem ended
    refine .inr ⟨note, rest, line, rfl, ?_⟩
    rw [lineLength, Text.before?_singleton line]
    rfl
  · refine .inl ⟨ended, ?_⟩
    rw [lineLength, Text.before?_singleton_eq_none_iff.mpr ended]
    rfl

inductive Reads : List Char → CellParts → Prop
  | nil : Reads [] ([], [])
  | trailing : Reads ['\\'] (['\\'], [])
  | row {cs : List Char} {parts : CellParts} (unspaced : cs.head? = some '[' → ']' ∉ cs) :
      Reads cs parts → Reads ('\\' :: '\\' :: cs) ([], .row :: parts.close)
  | spaced {space cs : List Char} {parts : CellParts} (inner : ']' ∉ space) : Reads cs parts →
      Reads ('\\' :: '\\' :: '[' :: (space ++ ']' :: cs)) ([], .row :: parts.close)
  | escape {c : Char} {cs : List Char} {parts : CellParts} (single : c ≠ '\\') :
      Reads cs parts → Reads ('\\' :: c :: cs) (parts.prepend ['\\', c])
  | comment {note cs : List Char} {parts : CellParts} (line : '\n' ∉ note) :
      Reads cs parts → Reads ('%' :: (note ++ '\n' :: cs)) ([], parts.close)
  | lastComment {note : List Char} (line : '\n' ∉ note) : Reads ('%' :: note) ([], [])
  | column {cs : List Char} {parts : CellParts} :
      Reads cs parts → Reads ('&' :: cs) ([], .column :: parts.close)
  | other {c : Char} {cs : List Char} {parts : CellParts} (slash : c ≠ '\\') (percent : c ≠ '%')
      (column : c ≠ '&') : Reads cs parts → Reads (c :: cs) (parts.prepend [c])

theorem reads_cellParts (cs : List Char) : Reads cs (cellParts cs) := by
  induction cs using cellParts.induct with
  | case1 =>
    rw [cellParts]
    exact .nil
  | case2 cs ih =>
    rw [cellParts]
    rcases skipLength_cases cs with ⟨unspaced, skip⟩ | ⟨space, rest, inner, rfl, skip⟩
    · rw [skip, List.drop_zero] at ih ⊢
      exact .row unspaced ih
    · have behind : ('[' :: (space ++ ']' :: rest)).drop (space.length + 2) = rest := by simp
      rw [skip, behind] at ih ⊢
      exact .spaced inner ih
  | case3 c cs single ih =>
    rw [cellParts_escape single]
    exact .escape single ih
  | case4 cs _ _ ih =>
    rw [cellParts_cons (by decide), if_pos rfl]
    rcases lineLength_cases cs with ⟨line, length⟩ | ⟨note, rest, line, rfl, length⟩
    · rw [length, List.drop_length, cellParts]
      exact .lastComment line
    · have behind : (note ++ '\n' :: rest).drop (note.length + 1) = rest := by simp
      rw [length, behind] at ih ⊢
      exact .comment line ih
  | case5 cs _ _ _ ih =>
    rw [cellParts_cons (by decide), if_neg (by decide), if_pos rfl]
    exact .column ih
  | case6 c cs _ alone percent column ih =>
    by_cases slash : c = '\\'
    · subst slash
      cases cs with
      | nil => simpa [cellParts, CellParts.prepend] using Reads.trailing
      | cons d cs => exact absurd rfl (alone d cs rfl)
    · rw [cellParts_cons slash, if_neg percent, if_neg column]
      exact .other slash percent column ih

theorem Reads.kept {cs : List Char} {parts : CellParts} (reads : Reads cs parts) :
    Kept cs (parts.close.flatMap CellToken.written) := by
  rw [written_close]
  induction reads with
  | nil => exact .nil
  | trailing => exact .trailing
  | row unspaced _ ih =>
    rw [List.nil_append, List.flatMap_cons, written_close]
    exact .row unspaced ih
  | spaced inner _ ih =>
    rw [List.nil_append, List.flatMap_cons, written_close]
    exact .spaced inner ih
  | escape single _ ih => exact .escape single ih
  | comment line _ ih =>
    rw [List.nil_append, written_close]
    exact .comment line ih
  | lastComment line => exact .lastComment line
  | column _ ih =>
    rw [List.nil_append, List.flatMap_cons, written_close]
    exact .other (by decide) (by decide) ih
  | other slash percent _ _ ih => exact .other slash percent ih

/-- A text keeps one thing only. -/
theorem Kept.unique {cs kept other : List Char} (keeps : Kept cs kept) (keeps' : Kept cs other) :
    kept = other := by
  induction keeps generalizing other with
  | nil =>
    cases keeps'
    rfl
  | trailing =>
    cases keeps' with
    | trailing => rfl
    | other slash => exact absurd rfl slash
  | row unspaced _ ih =>
    cases keeps' with
    | row _ behind => rw [ih behind]
    | spaced => exact absurd (unspaced rfl) (by simp)
    | escape single => exact absurd rfl single
    | other slash => exact absurd rfl slash
  | @spaced space cs _ inner _ ih =>
    generalize split : space ++ ']' :: cs = rest at keeps'
    cases keeps' with
    | row unspaced =>
      subst split
      exact absurd (unspaced rfl) (by simp)
    | @spaced space' cs' _ inner' behind =>
      obtain ⟨rfl, rfl⟩ := Text.eq_of_append_cons inner inner' split
      rw [ih behind]
    | escape single => exact absurd rfl single
    | other slash => exact absurd rfl slash
  | escape single _ ih =>
    cases keeps' with
    | row | spaced => exact absurd rfl single
    | escape _ behind => rw [ih behind]
    | other slash => exact absurd rfl slash
  | @comment note cs _ line _ ih =>
    generalize split : note ++ '\n' :: cs = rest at keeps'
    cases keeps' with
    | @comment note' cs' _ line' behind =>
      obtain ⟨rfl, rfl⟩ := Text.eq_of_append_cons line line' split
      exact ih behind
    | lastComment line' =>
      subst split
      simp at line'
    | other _ percent => exact absurd rfl percent
  | @lastComment note line =>
    generalize split : note = rest at keeps'
    cases keeps' with
    | comment =>
      subst split
      simp at line
    | lastComment => rfl
    | other _ percent => exact absurd rfl percent
  | other slash percent _ ih =>
    cases keeps' with
    | trailing | row | spaced | escape => exact absurd rfl slash
    | comment | lastComment => exact absurd rfl percent
    | other _ _ behind => rw [ih behind]

namespace Uncut
variable {cs : List Char}

/-- No row is separated within the text. -/
theorem not_infix (uncut : Uncut cs) : ¬ ['\\', '\\'] <:+: cs := by
  induction uncut with
  | nil => decide
  | trailing => decide
  | escape single _ ih =>
    rw [List.infix_cons_iff, List.infix_cons_iff]
    rintro (starts | starts | inside)
    · have behind := (List.cons_prefix_cons.mp starts).2
      exact single (List.cons_prefix_cons.mp behind).1.symm
    · exact single (List.cons_prefix_cons.mp starts).1.symm
    · exact ih inside
  | other slash _ _ _ ih =>
    rw [List.infix_cons_iff]
    rintro (starts | inside)
    · exact slash (List.cons_prefix_cons.mp starts).1.symm
    · exact ih inside

/-- What could separate cells or start a comment stands behind a backslash. -/
theorem getLast?_eq (uncut : Uncut cs) {before after : List Char} {c : Char}
    (split : cs = before ++ c :: after) (mark : c = '&' ∨ c = '%') :
    before.getLast? = some '\\' := by
  induction uncut generalizing before with
  | nil => simp at split
  | trailing =>
    cases before with
    | nil =>
      obtain rfl := (List.cons.inj split).1
      simp at mark
    | cons d before => simp at split
  | escape single _ ih =>
    match before, split with
    | [], split =>
      obtain rfl := (List.cons.inj split).1
      simp at mark
    | [d], split =>
      obtain rfl := (List.cons.inj split).1
      rfl
    | d :: e :: before, split =>
      have last := ih (List.cons.inj (List.cons.inj split).2).2
      obtain ⟨front, rfl⟩ := List.getLast?_eq_some_iff.mp last
      exact List.getLast?_concat (l := d :: e :: front)
  | other slash percent column _ ih =>
    cases before with
    | nil =>
      obtain rfl := (List.cons.inj split).1
      exact (mark.elim column percent).elim
    | cons d before =>
      have last := ih (List.cons.inj split).2
      obtain ⟨front, rfl⟩ := List.getLast?_eq_some_iff.mp last
      exact List.getLast?_concat (l := d :: front)

end Uncut

/-- No text that is or will be a token can be cut. -/
structure CellParts.Whole (parts : CellParts) : Prop where
  text : Uncut parts.1
  tokens : ∀ content, .text content ∈ parts.2 → content ≠ "" ∧ Uncut content.toList

theorem CellParts.Whole.close {parts : CellParts} (whole : parts.Whole) :
    ∀ content, .text content ∈ parts.close → content ≠ "" ∧ Uncut content.toList := by
  obtain ⟨text, tokens⟩ := parts
  intro content member
  cases text with
  | nil => exact whole.tokens content member
  | cons c text =>
    rcases List.mem_cons.mp member with same | behind
    · obtain rfl := CellToken.text.inj same
      exact ⟨by simp, by simpa using whole.text⟩
    · exact whole.tokens content behind

theorem Reads.whole {cs : List Char} {parts : CellParts} (reads : Reads cs parts) :
    parts.Whole := by
  have separated {parts : CellParts} (whole : parts.Whole) {token : CellToken}
      (textless : ∀ content, token ≠ .text content) :
      CellParts.Whole ([], token :: parts.close) := by
    refine ⟨.nil, fun content member => whole.close content ?_⟩
    exact (List.mem_cons.mp member).resolve_left fun same => textless content same.symm
  induction reads with
  | nil | lastComment => exact ⟨.nil, fun _ member => absurd member List.not_mem_nil⟩
  | trailing => exact ⟨.trailing, fun _ member => absurd member List.not_mem_nil⟩
  | row _ _ ih | spaced _ _ ih | column _ ih => exact separated ih nofun
  | escape single _ ih => exact ⟨.escape single ih.text, ih.tokens⟩
  | comment _ _ ih => exact ⟨.nil, ih.close⟩
  | other slash percent column _ ih => exact ⟨.other slash percent column ih.text, ih.tokens⟩

end Quire.Table
