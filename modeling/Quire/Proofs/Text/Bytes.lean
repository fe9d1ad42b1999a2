import Mathlib.Data.String.Basic
import Quire.Text.Cut

/-! Texts by their bytes. A character of the first 128 is one byte, and that byte stands in no other
character; between two places of a text where characters start there is a text of its own. -/
namespace Quire.Text

def bytes (s : String) : List UInt8 := s.toUTF8.data.toList

def byteIs (s : String) (i : Nat) (c : Char) : Bool := (bytes s)[i]? == some c.toUInt8

/-- The text from byte `start` up to byte `stop`; none where one of them stands within a character
or they are in the wrong order. -/
def slice? (s : String) (start stop : Nat) : Option String :=
  if start ≤ stop ∧ String.Pos.Raw.IsValid s ⟨start⟩ ∧ String.Pos.Raw.IsValid s ⟨stop⟩ then
    some (String.Pos.Raw.extract s ⟨start⟩ ⟨stop⟩)
  else none

theorem bytes_ofList (cs : List Char) : bytes (.ofList cs) = cs.flatMap String.utf8EncodeChar := by
  rw [bytes, String.toUTF8_eq_toByteArray, String.toByteArray_ofList, List.utf8Encode,
    List.toList_data_toByteArray]

theorem utf8Len_concat {c : Char} (one : c.utf8Size = 1) (cs : List Char) :
    String.utf8Len (cs ++ [c]) = String.utf8Len cs + 1 := by
  rw [String.utf8Len_append, String.utf8Len_cons, String.utf8Len_nil, one]

theorem length_flatMap_utf8EncodeChar (cs : List Char) :
    (cs.flatMap String.utf8EncodeChar).length = String.utf8Len cs := by
  induction cs with
  | nil => rfl
  | cons c cs ih =>
    rw [List.flatMap_cons, List.length_append, ih, String.length_utf8EncodeChar,
      String.utf8Len_cons, Nat.add_comm]

/-- A character is one byte or has bytes from 128 on alone. -/
theorem bytes_of_char (c : Char) :
    (c.toNat < 128 ∧ String.utf8EncodeChar c = [c.toUInt8]) ∨
      (128 ≤ c.toNat ∧ ∀ b ∈ String.utf8EncodeChar c, 128 ≤ b) := by
  have high (a b : UInt8) (top : 128 ≤ b) : 128 ≤ a ||| b := by
    rw [UInt8.le_iff_toNat_le, UInt8.toNat_or]
    exact Nat.le_trans (UInt8.le_iff_toNat_le.mp top) Nat.right_le_or
  have single : c.utf8Size = 1 ↔ c.toNat < 128 := by
    rw [Char.utf8Size_eq_one_iff, UInt32.le_iff_toNat_le]
    exact Nat.lt_succ_iff.symm
  rcases Char.utf8Size_eq c with one | two | three | four
  · exact .inl ⟨single.mp one, String.utf8EncodeChar_eq_singleton one⟩
  · refine .inr ⟨by omega, ?_⟩
    rw [String.utf8EncodeChar_eq_cons_cons two]
    simp only [List.forall_mem_cons]
    exact ⟨high _ _ (by decide), high _ _ (by decide), by simp⟩
  · refine .inr ⟨by omega, ?_⟩
    rw [String.utf8EncodeChar_eq_cons_cons_cons three]
    simp only [List.forall_mem_cons]
    exact ⟨high _ _ (by decide), high _ _ (by decide), high _ _ (by decide), by simp⟩
  · refine .inr ⟨by omega, ?_⟩
    rw [String.utf8EncodeChar_eq_cons_cons_cons_cons four]
    simp only [List.forall_mem_cons]
    exact ⟨high _ _ (by decide), high _ _ (by decide), high _ _ (by decide), high _ _ (by decide),
      by simp⟩

theorem toUInt8_lt {c : Char} (ascii : c.toNat < 128) : c.toUInt8 < 128 := by
  rw [UInt8.lt_iff_toNat_lt, Char.toUInt8, UInt32.toNat_toUInt8]
  exact Nat.lt_of_le_of_lt (Nat.mod_le _ _) ascii

theorem toUInt8_inj {c d : Char} (ascii : c.toNat < 128) (ascii' : d.toNat < 128)
    (same : c.toUInt8 = d.toUInt8) : c = d := by
  have values : c.toNat % 256 = d.toNat % 256 := by
    have := congrArg UInt8.toNat same
    rwa [Char.toUInt8, Char.toUInt8, UInt32.toNat_toUInt8, UInt32.toNat_toUInt8] at this
  rw [Nat.mod_eq_of_lt (by omega), Nat.mod_eq_of_lt (by omega)] at values
  exact Char.toNat_inj.mp values

section Place
variable {s : String} {front text rest : List Char} {c d : Char}

theorem utf8ByteSize_eq (whole : s.toList = front) : s.utf8ByteSize = String.utf8Len front := by
  rw [← whole, String.utf8Len_toList]

theorem lt_utf8ByteSize (whole : s.toList = front ++ c :: rest) :
    String.utf8Len front < s.utf8ByteSize := by
  rw [utf8ByteSize_eq whole, String.utf8Len_append, String.utf8Len_cons]
  have := c.utf8Size_pos
  omega

theorem byte_at (whole : s.toList = front ++ rest) (k : Nat) :
    (bytes s)[String.utf8Len front + k]? = (rest.flatMap String.utf8EncodeChar)[k]? := by
  have chars : bytes s = (front ++ rest).flatMap String.utf8EncodeChar := by
    rw [← whole, ← bytes_ofList, String.ofList_toList]
  rw [chars, List.flatMap_append, ← length_flatMap_utf8EncodeChar, List.getElem?_append_right
    (Nat.le_add_right _ _), Nat.add_sub_cancel_left]

/-- Where a character starts, its byte tells which it is. -/
theorem byteIs_eq (ascii : c.toNat < 128) (whole : s.toList = front ++ rest) :
    byteIs s (String.utf8Len front) c = decide (rest.head? = some c) := by
  rw [Bool.eq_iff_iff, byteIs, beq_iff_eq, decide_eq_true_iff,
    ← Nat.add_zero (String.utf8Len front), byte_at whole]
  cases rest with
  | nil => simp
  | cons d rest =>
    rw [List.flatMap_cons, List.getElem?_append_left (by simp [Char.utf8Size_pos]), List.head?_cons,
      Option.some.injEq]
    rcases bytes_of_char d with ⟨ascii', encoded⟩ | ⟨wide, above⟩
    · rw [encoded, List.getElem?_cons_zero, Option.some.injEq]
      exact ⟨toUInt8_inj ascii' ascii, congrArg Char.toUInt8⟩
    · constructor
      · intro first
        have top := above _ (List.mem_of_getElem? first)
        exact absurd (toUInt8_lt ascii) (UInt8.not_lt.mpr top)
      · rintro rfl
        omega

/-- Within a character no byte is one of the first 128 characters. -/
theorem byteIs_within (ascii : c.toNat < 128) (whole : s.toList = front ++ d :: rest) {k : Nat}
    (behind : 0 < k) (within : k < d.utf8Size) : byteIs s (String.utf8Len front + k) c = false := by
  rw [byteIs, beq_eq_false_iff_ne, byte_at whole, List.flatMap_cons,
    List.getElem?_append_left (by simpa using within)]
  rcases bytes_of_char d with ⟨_, encoded⟩ | ⟨_, above⟩
  · have one := congrArg List.length encoded
    rw [String.length_utf8EncodeChar, List.length_singleton] at one
    omega
  · intro first
    have top := above _ (List.mem_of_getElem? first)
    exact absurd (toUInt8_lt ascii) (UInt8.not_lt.mpr top)

/-- Characters start behind any characters that the text starts with. -/
theorem isValid_utf8Len (whole : s.toList = front ++ rest) :
    String.Pos.Raw.IsValid s ⟨String.utf8Len front⟩ := by
  have parts : s = .ofList front ++ .ofList rest := by
    rw [← String.ofList_append, ← whole, String.ofList_toList]
  rw [String.Pos.Raw.isValid_iff_exists_append]
  exact ⟨.ofList front, .ofList rest, parts, by rw [String.rawEndPos_ofList]⟩

theorem extract_utf8Len (whole : s.toList = front ++ text ++ rest) :
    String.Pos.Raw.extract s ⟨String.utf8Len front⟩ ⟨String.utf8Len (front ++ text)⟩ =
      .ofList text := by
  have parts : s = .ofList (front ++ text ++ rest) := by rw [← whole, String.ofList_toList]
  rw [parts, String.utf8Len_append, String.extract_of_valid]

theorem slice?_eq (whole : s.toList = front ++ text ++ rest) :
    slice? s (String.utf8Len front) (String.utf8Len (front ++ text)) = some (.ofList text) := by
  have ordered : String.utf8Len front ≤ String.utf8Len (front ++ text) := by
    rw [String.utf8Len_append]
    exact Nat.le_add_right _ _
  have starts : String.Pos.Raw.IsValid s ⟨String.utf8Len front⟩ :=
    isValid_utf8Len (whole.trans (List.append_assoc ..))
  rw [slice?, if_pos ⟨ordered, starts, isValid_utf8Len whole⟩, extract_utf8Len whole]

end Place

end Quire.Text
