/-! Decimal numerals as they stand in arguments, labels and options. -/
namespace Quire.Text

def digitValue (c : Char) : Nat := c.toNat - '0'.toNat

def ofDigits (cs : List Char) : Nat := cs.foldl (fun n c => 10 * n + digitValue c) 0

/-- Reads an unsigned number below `bound`: digits alone, at least one, with an optional plus sign
in front. -/
def numeral? (bound : Nat) (s : String) : Option Nat :=
  let digits := match s.toList with
    | '+' :: cs => cs
    | cs => cs
  if digits.isEmpty || !digits.all Char.isDigit then none
  else
    let n := ofDigits digits
    if n < bound then some n else none

def count? (s : String) : Option Nat := numeral? UInt64.size s

def padded (width n : Nat) : String :=
  let digits := toString n
  .ofList (List.replicate (width - digits.length) '0') ++ digits

end Quire.Text
