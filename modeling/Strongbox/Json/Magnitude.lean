import Strongbox.Bytes

/-!
# Magnitudes

A number with a power of ten is kept in binary, with fifty-three digits, and below the thousand and
twenty-fourth power of two. One that rounds to more cannot be kept.
-/

namespace Strongbox.Json

/-- A number without its sign: `significand` times the power of ten with this exponent. -/
structure Magnitude where
  significand : Nat
  exponent : Int
  deriving Repr, DecidableEq

namespace Magnitude

/-- The binary digits that are kept. -/
def precision : Nat := 53

/-- The multiple of `unit` that is nearest to a number; of two, the one with an even factor. -/
def roundTo (unit n : Nat) : Nat :=
  let below := n / unit
  let twice := 2 * (n % unit)
  if unit < twice ∨ (twice = unit ∧ below % 2 = 1) then (below + 1) * unit else below * unit

/-- The number as it is kept: the last of its binary digits are rounded away. -/
def nearest (n : Nat) : Nat := roundTo (Nat.pow 2 (n.log2 + 1 - precision)) n

/-- The least number that rounds to more than can be kept. -/
def ceiling : Nat := Nat.pow 2 1024 - Nat.pow 2 970

/-- The greatest power of ten that can be kept. -/
def maxExponent : Nat := 308

/-- Whether a number can be kept. Both of its factors are rounded before they are multiplied; a
division never leads out of range. -/
def isFinite : Magnitude → Bool
  | ⟨0, _⟩ => true
  | ⟨_, .negSucc _⟩ => true
  | ⟨n, .ofNat e⟩ =>
    decide (e ≤ maxExponent) && decide (nearest n * nearest (Nat.pow 10 e) < ceiling)

end Magnitude

/-- What comes of appending decimal digits to a number for as long as it stays below a limit, and
how many digits that were. -/
def appendDigits (limit : Nat) : (n : Nat) → (digits : Bytes) → Nat × Nat
  | n, [] => (n, 0)
  | n, d :: rest =>
    let longer := 10 * n + (d.toNat - 0x30)
    if longer < limit then
      let (value, count) := appendDigits limit longer rest
      (value, count + 1)
    else (n, 0)

end Strongbox.Json
