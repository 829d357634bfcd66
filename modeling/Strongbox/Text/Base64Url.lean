import Strongbox.Bytes

/-!
# Base 64 for addresses

Three bytes as four digits, without filling at the end. Reading is strict: the bits left over in the
last digit are zero, so every string of bytes has one written form.
-/

namespace Strongbox

namespace Base64Url

def digit (n : UInt8) : UInt8 :=
  if n < 26 then 0x41 + n
  else if n < 52 then 0x61 + (n - 26)
  else if n < 62 then 0x30 + (n - 52)
  else if n = 62 then 0x2d
  else 0x5f

def digitValue? (b : UInt8) : Option UInt8 :=
  if 0x41 ≤ b ∧ b ≤ 0x5a then some (b - 0x41)
  else if 0x61 ≤ b ∧ b ≤ 0x7a then some (b - 0x61 + 26)
  else if 0x30 ≤ b ∧ b ≤ 0x39 then some (b - 0x30 + 52)
  else if b = 0x2d then some 62
  else if b = 0x5f then some 63
  else none

def encode : Bytes → Bytes
  | [] => []
  | [a] => [digit (a >>> 2), digit ((a &&& 3) <<< 4)]
  | [a, b] => [digit (a >>> 2), digit ((a &&& 3) <<< 4 ||| b >>> 4), digit ((b &&& 15) <<< 2)]
  | a :: b :: c :: rest =>
    digit (a >>> 2) :: digit ((a &&& 3) <<< 4 ||| b >>> 4) :: digit ((b &&& 15) <<< 2 ||| c >>> 6)
      :: digit (c &&& 63) :: encode rest

/-- The bytes that values of digits stand for. -/
def join : List UInt8 → Option Bytes
  | [] => some []
  | [_] => none
  | [x, y] => if y &&& 15 = 0 then some [x <<< 2 ||| y >>> 4] else none
  | [x, y, z] =>
    if z &&& 3 = 0 then some [x <<< 2 ||| y >>> 4, y <<< 4 ||| z >>> 2] else none
  | x :: y :: z :: w :: rest =>
    (join rest).map fun tail =>
      (x <<< 2 ||| y >>> 4) :: (y <<< 4 ||| z >>> 2) :: (z <<< 6 ||| w) :: tail

def decode? (digits : Bytes) : Option Bytes := (digits.mapM digitValue?).bind join

example : encode (Bytes.ofString "Ma") = Bytes.ofString "TWE" := by decide +kernel

end Base64Url

end Strongbox
