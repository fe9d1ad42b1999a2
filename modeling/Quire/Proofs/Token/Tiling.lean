import Quire.Proofs.Text.Bytes
import Quire.Proofs.Token.Spelling

/-! Lexemes tile their source: each starts at the byte where the one before it ends, and what stands
in the source from there to the next one is a spelling of its token. Main statement:
`tokenize_tiles`. -/
namespace Quire.Token

def charsOf (lexemes : List Lexeme) : List Char := lexemes.flatMap (·.spelling.toList)

/-- Lexemes from a byte on, each starting where the one before it ends. -/
inductive Tiles : Nat → List Lexeme → Prop
  | nil (start : Nat) : Tiles start []
  | cons {l : Lexeme} {rest : List Lexeme} (spelled : l.spelling ∈ l.token.spellings)
      (some_ : l.spelling ≠ "") (behind : Tiles (l.offset + l.spelling.utf8ByteSize) rest) :
      Tiles l.offset (l :: rest)

theorem tiles_scan {offset : Nat} {cs : List Char} {lexemes : List Lexeme}
    (scanned : scan offset cs = .ok lexemes) : Tiles offset lexemes := by
  fun_induction scan offset cs generalizing lexemes with
  | case1 offset =>
    cases scanned
    exact .nil offset
  | case2 => cases scanned
  | case3 offset c cs token more found spelling =>
    rename_i ih
    cases rest : scan (offset + spelling.utf8ByteSize) (cs.drop more) with
    | error e =>
      rw [rest] at scanned
      cases scanned
    | ok lexemes' =>
      rw [rest] at scanned
      obtain rfl := Except.ok.inj scanned
      exact @Tiles.cons ⟨token, spelling, offset⟩ lexemes' (next?_spelling found)
        (by simp [spelling]) (ih rest)

theorem utf8Len_charsOf_cons (l : Lexeme) (lexemes : List Lexeme) :
    String.utf8Len (charsOf (l :: lexemes)) =
      l.spelling.utf8ByteSize + String.utf8Len (charsOf lexemes) := by
  rw [charsOf, List.flatMap_cons, String.utf8Len_append, ← String.utf8ByteSize_ofList,
    String.ofList_toList, charsOf]

/-- The byte at which a lexeme ends that others stand behind: where the first of these starts, or
the end of the source. -/
def endOf (source : String) (behind : List Lexeme) : Nat :=
  (behind.head?.map (·.offset)).getD source.utf8ByteSize

namespace Tiles

variable {start : Nat} {front behind lexemes : List Lexeme} {l : Lexeme}

theorem offset_eq (tiles : Tiles start (front ++ l :: behind)) :
    l.offset = start + String.utf8Len (charsOf front) := by
  induction front generalizing start with
  | nil =>
    cases tiles
    rfl
  | cons first front ih =>
    cases tiles with
    | cons _ _ tiles => rw [ih tiles, utf8Len_charsOf_cons, Nat.add_assoc]

theorem each (tiles : Tiles start lexemes) (member : l ∈ lexemes) :
    l.spelling ∈ l.token.spellings ∧ l.spelling ≠ "" := by
  induction tiles with
  | nil => cases member
  | cons spelled some_ _ ih =>
    rcases List.mem_cons.mp member with rfl | behind
    · exact ⟨spelled, some_⟩
    · exact ih behind

theorem start_le (tiles : Tiles start lexemes) : ∀ l ∈ lexemes, start ≤ l.offset := by
  intro l member
  obtain ⟨front, behind, rfl⟩ := List.append_of_mem member
  rw [tiles.offset_eq]
  exact Nat.le_add_right _ _

/-- No spelling is empty, so each lexeme starts behind the one in front of it. -/
theorem increases (tiles : Tiles start lexemes) : lexemes.Pairwise (·.offset < ·.offset) := by
  induction tiles with
  | nil => exact .nil
  | @cons l rest _ some_ tiles ih =>
    have size : 0 < l.spelling.utf8ByteSize := by
      rw [Nat.pos_iff_ne_zero, Ne, String.utf8ByteSize_eq_zero_iff]
      exact some_
    exact .cons (fun m member => Nat.lt_of_lt_of_le (by omega) (tiles.start_le m member)) ih

/-- A lexeme ends where its spelling does. -/
theorem endOf_eq {source : String} (tiles : Tiles 0 (front ++ l :: behind))
    (whole : charsOf (front ++ l :: behind) = source.toList) :
    endOf source behind = l.offset + l.spelling.utf8ByteSize := by
  cases behind with
  | nil =>
    have size : source.utf8ByteSize = String.utf8Len (charsOf front) + l.spelling.utf8ByteSize := by
      rw [← String.ofList_toList (s := source), ← whole, String.utf8ByteSize_ofList, charsOf,
        List.flatMap_append, String.utf8Len_append, ← charsOf, ← charsOf, utf8Len_charsOf_cons]
      rfl
    rw [tiles.offset_eq, Nat.zero_add]
    exact size
  | cons next behind =>
    have split : front ++ l :: next :: behind = (front ++ [l]) ++ next :: behind := by simp
    have last : String.utf8Len (charsOf (front ++ [l])) =
        String.utf8Len (charsOf front) + l.spelling.utf8ByteSize := by
      rw [charsOf, List.flatMap_append, String.utf8Len_append, ← charsOf, ← charsOf,
        utf8Len_charsOf_cons]
      rfl
    rw [tiles.offset_eq, endOf]
    rw [split] at tiles
    simp [tiles.offset_eq, last]

/-- What stands in the source from a lexeme to the next is its spelling. -/
theorem slice_eq {source : String} (tiles : Tiles 0 (front ++ l :: behind))
    (whole : charsOf (front ++ l :: behind) = source.toList) :
    String.Pos.Raw.IsValid source ⟨l.offset⟩ ∧
      String.Pos.Raw.extract source ⟨l.offset⟩ ⟨endOf source behind⟩ = l.spelling := by
  have starts : l.offset = String.utf8Len (charsOf front) := by
    rw [tiles.offset_eq, Nat.zero_add]
  have ends : endOf source behind = String.utf8Len (charsOf front ++ l.spelling.toList) := by
    rw [tiles.endOf_eq whole, starts, String.utf8Len_append, String.utf8Len_toList]
  have parts : source.toList = charsOf front ++ l.spelling.toList ++ charsOf behind := by
    rw [← whole, charsOf, List.flatMap_append, List.flatMap_cons, List.append_assoc]
    rfl
  rw [starts, ends]
  refine ⟨Text.isValid_utf8Len (parts.trans (List.append_assoc ..)), ?_⟩
  rw [Text.extract_utf8Len parts, String.ofList_toList]

end Tiles

/-- An empty source has no lexemes. In any other the first lexeme starts at the first byte, each of
the others behind the one in front of it, all of them at characters, and up to the next lexeme or
the end of the source stands a spelling of the token. -/
theorem tokenize_tiles {source : String} {lexemes : List Lexeme}
    (cut : tokenize source = .ok lexemes) :
    (lexemes = [] ↔ source = "") ∧ (∀ l ∈ lexemes.head?, l.offset = 0) ∧
      lexemes.Pairwise (·.offset < ·.offset) ∧
      ∀ front l behind, lexemes = front ++ l :: behind →
        String.Pos.Raw.IsValid source ⟨l.offset⟩ ∧
          String.Pos.Raw.extract source ⟨l.offset⟩ ⟨endOf source behind⟩ ∈ l.token.spellings := by
  have whole : charsOf lexemes = source.toList := spellings_scan cut
  have tiles := tiles_scan cut
  refine ⟨⟨?_, ?_⟩, ?_, tiles.increases, ?_⟩
  · rintro rfl
    exact String.toList_inj.mp whole.symm
  · rintro rfl
    have blank : ∀ l ∈ lexemes, l.spelling.toList = [] := List.flatMap_eq_nil_iff.mp whole
    refine List.eq_nil_iff_forall_not_mem.mpr fun l member => (tiles.each member).2 ?_
    exact String.toList_inj.mp (blank l member)
  · intro l first
    obtain ⟨behind, rfl⟩ := List.head?_eq_some_iff.mp first
    exact @Tiles.offset_eq _ [] _ _ tiles
  · rintro front l behind rfl
    obtain ⟨valid, slice⟩ := tiles.slice_eq whole
    exact ⟨valid, slice ▸ (tiles.each (by simp)).1⟩

/-- A letter of two bytes, an accent on a dotless letter in braces, and math in parentheses. -/
theorem tokenize_tiles_of_accent :
    let source := "é\\'\x7b\\i\x7d\\(b\\)"
    let lexemes : List Lexeme := [⟨.text "é", "é", 0⟩,
      ⟨.accent '\'' 'i', "\\'\x7b\\i\x7d", 2⟩, ⟨.math false "b", "\\(b\\)", 8⟩]
    tokenize source = .ok lexemes ∧ lexemes.Pairwise (·.offset < ·.offset) ∧
      String.Pos.Raw.IsValid source ⟨2⟩ ∧
      String.Pos.Raw.extract source ⟨2⟩ ⟨8⟩ ∈ spellings (.accent '\'' 'i') := by
  intro source lexemes
  have cut : tokenize source = .ok lexemes := by decide +kernel
  obtain ⟨-, -, increases, slices⟩ := tokenize_tiles cut
  exact ⟨cut, increases, slices [_] _ [_] rfl⟩

end Quire.Token
