/-! White space in running text: one class of characters, and the trims that remove it from
the ends of a text. -/
namespace Quire.Text

/-- The characters with the Unicode property White_Space. -/
def isBlank (c : Char) : Bool :=
  let n := c.toNat
  (9 ≤ n && n ≤ 13) || n == 32 || n == 0x85 || n == 0xA0 || n == 0x1680 ||
    (0x2000 ≤ n && n ≤ 0x200A) || n == 0x2028 || n == 0x2029 || n == 0x202F || n == 0x205F ||
    n == 0x3000

def dropEndWhile (p : α → Bool) (cs : List α) : List α :=
  (cs.reverse.dropWhile p).reverse

def dropFront (p : Char → Bool) (s : String) : String :=
  .ofList (s.toList.dropWhile p)

def trimStart (s : String) : String := dropFront isBlank s

def trimEnd (s : String) : String := .ofList (dropEndWhile isBlank s.toList)

def trim (s : String) : String := .ofList (dropEndWhile isBlank (s.toList.dropWhile isBlank))

def allBlank (s : String) : Bool := s.toList.all isBlank

@[simp] theorem length_dropEndWhile_le (p : α → Bool) (cs : List α) :
    (dropEndWhile p cs).length ≤ cs.length := by
  simpa [dropEndWhile] using (List.dropWhile_suffix p (l := cs.reverse)).length_le

theorem length_trim_le (s : String) : (trim s).length ≤ s.length := by
  have h := length_dropEndWhile_le isBlank (s.toList.dropWhile isBlank)
  have k := (List.dropWhile_suffix isBlank (l := s.toList)).length_le
  rw [String.length_toList] at k
  rw [trim, String.length_ofList]
  exact Nat.le_trans h k

end Quire.Text
