import Quire.Text.Numeral

/-! Numbers in TOML texts. Of a float only its spelling is checked, because no setting is one. -/
namespace Quire.Toml

def hex? (cs : List Char) : Option Nat :=
  cs.foldlM (fun n c => (hexDigit? c).map (16 * n + ·)) 0
where
  hexDigit? (c : Char) : Option Nat :=
    if c.isDigit then some (c.toNat - '0'.toNat)
    else if 'a' ≤ c && c ≤ 'f' then some (c.toNat - 'a'.toNat + 10)
    else if 'A' ≤ c && c ≤ 'F' then some (c.toNat - 'A'.toNat + 10)
    else none

def digits? (isDigit : Char → Bool) : List Char → Option (List Char)
  | [] => none
  | [c] => if isDigit c then some [c] else none
  | c :: '_' :: cs => if isDigit c then (digits? isDigit cs).map (c :: ·) else none
  | c :: d :: cs => if isDigit c then (digits? isDigit (d :: cs)).map (c :: ·) else none

def wholeDigits? (cs : List Char) : Option (List Char) :=
  if cs.head? = some '0' && cs.length > 1 then none else digits? Char.isDigit cs

def ofDigits? (base : Nat) (cs : List Char) : Option Nat :=
  let isDigit (c : Char) : Bool := (hex? [c]).any (· < base)
  (digits? isDigit cs).map fun digits =>
    digits.foldl (fun n c => base * n + ((hex? [c]).getD 0)) 0

/-- True for a minus sign at the front, and what follows the sign that may be there. -/
def sign : List Char → Bool × List Char
  | '+' :: cs => (false, cs)
  | '-' :: cs => (true, cs)
  | cs => (false, cs)

def signed (negative : Bool) (n : Nat) : Int := if negative then -n else n

/-- A whole number of 64 bits. Zeros may not lead a decimal number, and only a decimal number has
a sign. -/
def integer? (word : String) : Option Int := do
  let n ← match word.toList with
    | '0' :: 'x' :: cs => (ofDigits? 16 cs).map Int.ofNat
    | '0' :: 'o' :: cs => (ofDigits? 8 cs).map Int.ofNat
    | '0' :: 'b' :: cs => (ofDigits? 2 cs).map Int.ofNat
    | cs => (wholeDigits? (sign cs).2).map fun digits => signed (sign cs).1 (Text.ofDigits digits)
  if Int64.minValue.toInt ≤ n && n ≤ Int64.maxValue.toInt then some n else none

/-- True when `mantissa * 10 ^ exponent` rounds to a finite number of 64 bits. The largest one is
`2 ^ 1024 - 2 ^ 971`. Powers are formed only near it, so that a long exponent costs nothing. -/
def isFinite (mantissa : Nat) (exponent : Int) : Bool :=
  let limit := Nat.pow 2 1024 - Nat.pow 2 970
  let magnitude := exponent + (Nat.toDigits 10 mantissa).length
  if mantissa = 0 || magnitude ≤ 308 then true
  else if 310 ≤ magnitude then false
  else if 0 ≤ exponent then mantissa * Nat.pow 10 exponent.toNat < limit
  else mantissa < limit * Nat.pow 10 (-exponent).toNat

/-- True for a float: a whole number with a fraction, an exponent or both, or one of the words for
what is no finite number. A positive number may not be too large to be finite. -/
def isFloat (word : String) : Bool :=
  let (negative, cs) := sign word.toList
  let mantissa := cs.takeWhile fun c => c != 'e' && c != 'E'
  let whole := mantissa.takeWhile (· != '.')
  let fraction := match mantissa.drop whole.length with
    | [] => some []
    | _ :: digits => digits? Char.isDigit digits
  let exponent := match cs.drop mantissa.length with
    | [] => some 0
    | _ :: cs => (digits? Char.isDigit (sign cs).2).map fun digits =>
        signed (sign cs).1 (Text.ofDigits digits)
  cs = "inf".toList || cs = "nan".toList ||
    whole.length < cs.length &&
      match wholeDigits? whole, fraction, exponent with
      | some whole, some fraction, some exponent =>
        negative || isFinite (Text.ofDigits (whole ++ fraction)) (exponent - fraction.length)
      | _, _, _ => false

end Quire.Toml
