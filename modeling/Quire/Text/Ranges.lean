/-! Sets of characters given by ranges of code points. -/
namespace Quire.Text

/-- First and last code point of each range of a set, in ascending order. -/
abbrev Ranges := List (Nat × Nat)

def Ranges.holds (ranges : Ranges) (c : Char) : Bool :=
  ranges.any fun (first, last) => first ≤ c.toNat && c.toNat ≤ last

end Quire.Text
