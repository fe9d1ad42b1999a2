/-! A keyed 64-bit digest of a byte sequence: SipHash with one round per block, three rounds at the
end, and the key zero. -/
namespace Quire.Digest

structure State where
  v0 : UInt64
  v1 : UInt64
  v2 : UInt64
  v3 : UInt64
deriving DecidableEq, Repr

/-- The four words of the key zero. -/
def start : State :=
  ⟨0x736f6d6570736575, 0x646f72616e646f6d, 0x6c7967656e657261, 0x7465646279746573⟩

def rotate (x : UInt64) (n : UInt64) : UInt64 := (x <<< n) ||| (x >>> (64 - n))

def round (s : State) : State :=
  let v0 := s.v0 + s.v1
  let v1 := rotate s.v1 13 ^^^ v0
  let v0 := rotate v0 32
  let v2 := s.v2 + s.v3
  let v3 := rotate s.v3 16 ^^^ v2
  let v0 := v0 + v3
  let v3 := rotate v3 21 ^^^ v0
  let v2 := v2 + v1
  let v1 := rotate v1 17 ^^^ v2
  let v2 := rotate v2 32
  ⟨v0, v1, v2, v3⟩

def absorb (s : State) (block : UInt64) : State :=
  let s := round { s with v3 := s.v3 ^^^ block }
  { s with v0 := s.v0 ^^^ block }

def littleEndian : List UInt8 → UInt64
  | [] => 0
  | b :: bytes => b.toUInt64 ||| (littleEndian bytes <<< 8)

def absorbAll (s : State) : List UInt8 → State × List UInt8
  | b0 :: b1 :: b2 :: b3 :: b4 :: b5 :: b6 :: b7 :: rest =>
    absorbAll (absorb s (littleEndian [b0, b1, b2, b3, b4, b5, b6, b7])) rest
  | rest => (s, rest)

/-- The last block holds the bytes that are left, and the length in its top byte. -/
def ofBytes (bytes : List UInt8) : UInt64 :=
  let (s, rest) := absorbAll start bytes
  let s := absorb s (littleEndian rest ||| (UInt64.ofNat bytes.length <<< 56))
  let s := round (round (round { s with v2 := s.v2 ^^^ 0xff }))
  s.v0 ^^^ s.v1 ^^^ s.v2 ^^^ s.v3

def hex (s : String) : String :=
  let digits := Nat.toDigits 16 (ofBytes s.toUTF8.toList).toNat
  .ofList (List.replicate (16 - digits.length) '0' ++ digits)

end Quire.Digest
