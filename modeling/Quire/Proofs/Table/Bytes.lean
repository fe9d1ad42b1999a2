import Quire.Proofs.Table.Cells
import Quire.Proofs.Text.Bytes

/-! Tables cut into cells byte by byte. Behind a backslash the walk takes two bytes, so it can come
to stand within a character, but a text neither starts nor stops there. It gives the tokens that are
read character by character. Main statement: `splitCells_keeps`. -/
namespace Quire.Table

open Text (byteIs slice? before? utf8Len_concat lt_utf8ByteSize)
open String (utf8Len)

/-- The text from `start` up to byte `i`, where there is some. -/
def pending? (raw : String) (start i : Nat) : Option (List CellToken) :=
  if start < i then (slice? raw start i).map fun content => [.text content] else some []

def find? (raw : String) (c : Char) (i : Nat) : Option (Option Nat) :=
  (slice? raw i raw.utf8ByteSize).map fun rest => (before? [c] rest.toList).map utf8Len

def space? (raw : String) (i : Nat) : Option (Option Nat) :=
  if byteIs raw i '[' then find? raw ']' i else some none

/-- The tokens from byte `start` on, for a walk that has come to byte `i`; none where a text would
start or stop within a character. -/
def walk? (raw : String) (start i : Nat) : Option (List CellToken) :=
  if i < raw.utf8ByteSize then
    if byteIs raw i '\\' then
      if byteIs raw (i + 1) '\\' then do
        let text ← pending? raw start i
        let space ← space? raw (i + 2)
        let next := i + 2 + (space.map (· + 1)).getD 0
        let behind ← walk? raw next next
        return text ++ .row :: behind
      -- The byte behind the backslash may be the first of several.
      else walk? raw start (i + 2)
    else if byteIs raw i '%' then do
      let text ← pending? raw start i
      let line ← find? raw '\n' i
      let next := (line.map (i + · + 1)).getD raw.utf8ByteSize
      let behind ← walk? raw next next
      return text ++ behind
    else if byteIs raw i '&' then do
      let text ← pending? raw start i
      let behind ← walk? raw (i + 1) (i + 1)
      return text ++ .column :: behind
    else walk? raw start (i + 1)
  else pending? raw start raw.utf8ByteSize
termination_by raw.utf8ByteSize - i
decreasing_by
  · omega
  · omega
  · cases line with
    | none => rw [Option.map_none, Option.getD_none]; omega
    | some n => rw [Option.map_some, Option.getD_some]; omega
  · omega
  · omega

section Place
variable {raw : String} {front text rest : List Char} {c : Char}

theorem pending?_eq (whole : raw.toList = front ++ text ++ rest) :
    pending? raw (utf8Len front) (utf8Len (front ++ text)) = some (CellParts.close (text, [])) := by
  rw [pending?, Text.slice?_eq whole, String.utf8Len_append]
  cases text with
  | nil => rw [String.utf8Len_nil, if_neg (by omega)]; rfl
  | cons d text =>
    have := d.utf8Size_pos
    rw [String.utf8Len_cons, if_pos (by omega)]
    rfl

theorem find?_eq (whole : raw.toList = front ++ rest) :
    find? raw c (utf8Len front) = some ((before? [c] rest).map utf8Len) := by
  have behind : slice? raw (utf8Len front) raw.utf8ByteSize = some (.ofList rest) := by
    rw [Text.utf8ByteSize_eq whole]
    exact Text.slice?_eq (by rw [whole, List.append_nil])
  rw [find?, behind, Option.map_some, String.toList_ofList]

theorem space?_none (whole : raw.toList = front ++ rest)
    (unspaced : rest.head? = some '[' → ']' ∉ rest) : space? raw (utf8Len front) = some none := by
  rw [space?, Text.byteIs_eq (by decide) whole]
  by_cases opening : rest.head? = some '['
  · rw [if_pos (decide_eq_true opening), find?_eq whole,
      Text.before?_singleton_eq_none_iff.mpr (unspaced opening)]
    rfl
  · rw [if_neg (by simpa using opening)]

theorem space?_some {space : List Char} (inner : ']' ∉ space)
    (whole : raw.toList = front ++ '[' :: (space ++ ']' :: rest)) :
    space? raw (utf8Len front) = some (some (utf8Len ('[' :: space))) := by
  have opening : ']' ∉ '[' :: space := List.not_mem_cons_of_ne_of_not_mem (by decide) inner
  rw [space?, Text.byteIs_eq (by decide) whole, List.head?_cons,
    if_pos (decide_eq_true rfl), find?_eq whole, ← List.cons_append, Text.before?_singleton opening]
  rfl

/-- Where the text has ended, what is left of it is a token. -/
theorem walk?_end (whole : raw.toList = front ++ text) {i : Nat} (past : utf8Len (front ++ text) ≤ i) :
    walk? raw (utf8Len front) i = some (CellParts.close (text, [])) := by
  rw [walk?, Text.utf8ByteSize_eq whole, if_neg (Nat.not_lt.mpr past)]
  exact pending?_eq (by rw [whole, List.append_nil])

/-- Where no separator, backslash or comment starts, the walk goes on. -/
theorem walk?_other {start i : Nat} (inside : i < raw.utf8ByteSize)
    (slash : byteIs raw i '\\' = false) (percent : byteIs raw i '%' = false)
    (column : byteIs raw i '&' = false) : walk? raw start i = walk? raw start (i + 1) := by
  rw [walk?, if_pos inside, slash, percent, column]
  rfl

/-- From within a character the walk comes to the next. -/
theorem walk?_within (start : Nat) (whole : raw.toList = front ++ c :: rest) {k : Nat} (some_ : 0 < k)
    (within : k ≤ c.utf8Size) :
    walk? raw start (utf8Len front + k) = walk? raw start (utf8Len (front ++ [c])) := by
  rcases Nat.lt_or_eq_of_le within with before | rfl
  · have inside : utf8Len front + k < raw.utf8ByteSize := by
      rw [Text.utf8ByteSize_eq whole, String.utf8Len_append, String.utf8Len_cons]
      omega
    rw [walk?_other inside (Text.byteIs_within (by decide) whole some_ before)
      (Text.byteIs_within (by decide) whole some_ before)
      (Text.byteIs_within (by decide) whole some_ before)]
    exact walk?_within start whole (Nat.succ_pos k) before
  · rw [String.utf8Len_append, String.utf8Len_cons, String.utf8Len_nil, Nat.zero_add]
termination_by c.utf8Size - k

/-- A backslash with no other behind it: the walk goes on behind the byte after it. -/
theorem walk?_slash (start : Nat) (whole : raw.toList = front ++ '\\' :: rest)
    (single : rest.head? ≠ some '\\') :
    walk? raw start (utf8Len front) = walk? raw start (utf8Len (front ++ ['\\']) + 1) := by
  have slash := Text.byteIs_eq (c := '\\') (by decide) whole
  have behind := Text.byteIs_eq (c := '\\') (by decide) (whole.trans (List.append_cons ..))
  have slash_length := utf8Len_concat (c := '\\') rfl front
  rw [walk?, if_pos (lt_utf8ByteSize whole), slash, List.head?_cons, if_pos (decide_eq_true rfl),
    ← slash_length, behind, if_neg (by simpa using single), slash_length]

theorem walk?_row (space rest : List Char) {gap : Option Nat}
    (whole : raw.toList = front ++ text ++ '\\' :: '\\' :: (space ++ rest))
    (found : space? raw (utf8Len (front ++ text ++ ['\\', '\\'])) = some gap)
    (length : (gap.map (· + 1)).getD 0 = utf8Len space) :
    walk? raw (utf8Len front) (utf8Len (front ++ text)) =
      (walk? raw (utf8Len (front ++ text ++ '\\' :: '\\' :: space))
        (utf8Len (front ++ text ++ '\\' :: '\\' :: space))).map
          (CellParts.close (text, []) ++ .row :: ·) := by
  have slash := Text.byteIs_eq (c := '\\') (by decide) whole
  have behind := Text.byteIs_eq (c := '\\') (by decide) (whole.trans (List.append_cons ..))
  rw [utf8Len_concat rfl] at behind
  have two : utf8Len (front ++ text ++ ['\\', '\\']) = utf8Len (front ++ text) + 2 := by
    rw [String.utf8Len_append]
    rfl
  have next : utf8Len (front ++ text ++ ['\\', '\\']) + utf8Len space =
      utf8Len (front ++ text ++ '\\' :: '\\' :: space) := by
    rw [← String.utf8Len_append, List.append_assoc]
    rfl
  rw [walk?, if_pos (lt_utf8ByteSize whole), slash, List.head?_cons, if_pos (decide_eq_true rfl),
    behind, List.head?_cons, if_pos (decide_eq_true rfl), pending?_eq whole, ← two, found]
  simp only [Option.bind_eq_bind, Option.bind_some, length, next]
  exact (Option.map_eq_bind ..).symm

theorem walk?_comment (note rest : List Char) {line : Option Nat}
    (whole : raw.toList = front ++ text ++ '%' :: (note ++ rest))
    (found : find? raw '\n' (utf8Len (front ++ text)) = some line)
    (ends : (line.map (utf8Len (front ++ text) + · + 1)).getD raw.utf8ByteSize =
      utf8Len (front ++ text ++ '%' :: note)) :
    walk? raw (utf8Len front) (utf8Len (front ++ text)) =
      (walk? raw (utf8Len (front ++ text ++ '%' :: note))
        (utf8Len (front ++ text ++ '%' :: note))).map (CellParts.close (text, []) ++ ·) := by
  have slash := Text.byteIs_eq (c := '\\') (by decide) whole
  have percent := Text.byteIs_eq (c := '%') (by decide) whole
  rw [walk?, if_pos (lt_utf8ByteSize whole), slash, List.head?_cons, if_neg (by decide), percent,
    List.head?_cons, if_pos (decide_eq_true rfl), pending?_eq whole, found]
  simp only [Option.bind_eq_bind, Option.bind_some, ends]
  exact (Option.map_eq_bind ..).symm

theorem walk?_column (whole : raw.toList = front ++ text ++ '&' :: rest) :
    walk? raw (utf8Len front) (utf8Len (front ++ text)) =
      (walk? raw (utf8Len (front ++ text ++ ['&'])) (utf8Len (front ++ text ++ ['&']))).map
        (CellParts.close (text, []) ++ .column :: ·) := by
  have slash := Text.byteIs_eq (c := '\\') (by decide) whole
  have percent := Text.byteIs_eq (c := '%') (by decide) whole
  have column := Text.byteIs_eq (c := '&') (by decide) whole
  rw [walk?, if_pos (lt_utf8ByteSize whole), slash, List.head?_cons, if_neg (by decide), percent,
    List.head?_cons, if_neg (by decide), column, List.head?_cons, if_pos (decide_eq_true rfl),
    pending?_eq whole, utf8Len_concat rfl]
  simp only [Option.bind_eq_bind, Option.bind_some]
  exact (Option.map_eq_bind ..).symm

end Place

theorem close_split (text : List Char) (tokens : List CellToken) :
    (CellParts.prepend text ([], tokens)).close = CellParts.close (text, []) ++ tokens := by
  cases text <;> simp [CellParts.prepend, CellParts.close]

theorem prepend_prepend (text more : List Char) (parts : CellParts) :
    (parts.prepend more).prepend text = parts.prepend (text ++ more) := by
  simp [CellParts.prepend]

/-- The walk over the rest of the text gives these parts, behind any text that it has passed. -/
def Walks (raw : String) (cs : List Char) (parts : CellParts) : Prop :=
  ∀ front text, raw.toList = front ++ text ++ cs →
    walk? raw (utf8Len front) (utf8Len (front ++ text)) = some (parts.prepend text).close

theorem Walks.restart {raw : String} {cs : List Char} {parts : CellParts}
    (walks : Walks raw cs parts) {front : List Char} (whole : raw.toList = front ++ cs) :
    walk? raw (utf8Len front) (utf8Len front) = some parts.close := by
  have behind := walks front [] (whole.trans (by rw [List.append_nil]))
  rwa [List.append_nil] at behind

/-- Each step of the walk stands for one of the ways in which the text is read. -/
theorem Reads.walks {raw : String} {cs : List Char} {parts : CellParts} (reads : Reads cs parts) :
    Walks raw cs parts := by
  induction reads with
  | nil =>
    intro front text whole
    rw [List.append_nil] at whole
    rw [walk?_end whole (Nat.le_refl _), close_split, List.append_nil]
  | trailing =>
    intro front text whole
    rw [walk?_slash _ whole nofun, List.append_assoc]
    rw [List.append_assoc] at whole
    exact walk?_end whole (Nat.le_succ _)
  | @row cs parts unspaced _ ih =>
    intro front text whole
    have behind : raw.toList = front ++ text ++ ['\\', '\\'] ++ cs := by simp [whole]
    rw [walk?_row [] cs whole (space?_none behind unspaced) rfl, ih.restart behind,
      close_split]
    rfl
  | @spaced space cs parts inner _ ih =>
    intro front text whole
    have bracket : raw.toList = front ++ text ++ ['\\', '\\'] ++ '[' :: (space ++ ']' :: cs) := by
      simp [whole]
    rw [walk?_row ('[' :: (space ++ [']'])) cs (by simp [whole])
      (space?_some inner bracket) ?_, ih.restart (by simp [whole]), close_split]
    · rfl
    · rw [← List.cons_append, utf8Len_concat rfl]
      rfl
  | @escape c cs parts single _ ih =>
    intro front text whole
    have behind : raw.toList = front ++ text ++ ['\\'] ++ c :: cs := by simp [whole]
    rw [walk?_slash _ whole (by simpa using single),
      walk?_within _ behind Nat.one_pos c.utf8Size_pos, prepend_prepend,
      ← ih front _ (by simp [whole])]
    simp only [List.append_assoc, List.cons_append, List.nil_append]
  | @comment note cs parts line _ ih =>
    intro front text whole
    have marked : '\n' ∉ '%' :: note := List.not_mem_cons_of_ne_of_not_mem (by decide) line
    have found := find?_eq (c := '\n') whole
    rw [← List.cons_append, Text.before?_singleton marked, Option.map_some] at found
    rw [walk?_comment (note ++ ['\n']) cs (by simp [whole]) found ?_,
      ih.restart (by simp [whole]), close_split]
    · rfl
    · rw [← List.cons_append, ← List.append_assoc, utf8Len_concat rfl,
        String.utf8Len_append (front ++ text)]
      rfl
  | @lastComment note line =>
    intro front text whole
    have marked : '\n' ∉ '%' :: note := List.not_mem_cons_of_ne_of_not_mem (by decide) line
    have found := find?_eq (c := '\n') whole
    rw [Text.before?_singleton_eq_none_iff.mpr marked, Option.map_none] at found
    have ended : raw.toList = front ++ text ++ '%' :: note ++ [] := by simp [whole]
    rw [walk?_comment note [] (by simp [whole]) found (Text.utf8ByteSize_eq whole),
      walk?_end ended (by simp), close_split]
    rfl
  | column _ ih =>
    intro front text whole
    rw [walk?_column whole, ih.restart (by simp [whole]), close_split]
    rfl
  | @other c cs parts slash percent column _ ih =>
    intro front text whole
    have unmarked {d : Char} (ascii : d.toNat < 128) (apart : c ≠ d) :
        byteIs raw (utf8Len (front ++ text)) d = false := by
      rw [Text.byteIs_eq ascii whole]
      simpa using apart
    rw [walk?_other (lt_utf8ByteSize whole) (unmarked (by decide) slash)
      (unmarked (by decide) percent) (unmarked (by decide) column),
      walk?_within _ whole Nat.one_pos c.utf8Size_pos, prepend_prepend,
      ← ih front _ (by simp [whole]), List.append_assoc]

/-- The byte walk takes no text from within a character. No text of the tokens is empty or can be
cut further, and what is written of them is what the text keeps. -/
theorem splitCells_keeps (raw : String) :
    walk? raw 0 0 = some (splitCells raw) ∧
      (∀ content, .text content ∈ splitCells raw → content ≠ "" ∧
        ¬ ['\\', '\\'] <:+: content.toList ∧
        ∀ before c after, content.toList = before ++ c :: after → (c = '&' ∨ c = '%') →
          before.getLast? = some '\\') ∧
      ∀ kept, Kept raw.toList kept ↔ kept = (splitCells raw).flatMap CellToken.written := by
  have reads := reads_cellParts raw.toList
  refine ⟨?_, fun content member => ?_, fun kept => ⟨fun keeps => ?_, ?_⟩⟩
  · exact reads.walks.restart (List.nil_append _).symm
  · obtain ⟨nonempty, uncut⟩ := reads.whole.close content member
    exact ⟨nonempty, uncut.not_infix, fun _ _ _ => uncut.getLast?_eq⟩
  · exact keeps.unique reads.kept
  · rintro rfl
    exact reads.kept

end Quire.Table
