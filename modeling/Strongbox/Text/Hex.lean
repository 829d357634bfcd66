import Strongbox.Bytes
import Strongbox.Failure
import Strongbox.Text.Blank
import Strongbox.Text.Quoted

/-!
# Hexadecimal

Bytes as pairs of digits, the high half first. Writing uses lower-case digits; reading accepts
either case and ignores surrounding blanks.
-/

namespace Strongbox

namespace Hex

inductive Fault where
  | oddLength
  | badDigit (byte : UInt8) (position : Nat)
  | wrongCount (expected found : Nat)
  deriving Repr, DecidableEq

def Fault.failure : Fault → Failure
  | oddLength => .config "invalid hex: Odd number of digits"
  | badDigit byte position =>
      .config ("invalid hex: Invalid character " ++ Text.quotedChar (Char.ofNat byte.toNat)
        ++ " at position " ++ toString position)
  | wrongCount expected found =>
      .config ("expected " ++ toString expected ++ " bytes (" ++ toString (expected * 2)
        ++ " hex chars), got " ++ toString found)

def digit (n : UInt8) : UInt8 := if n < 10 then 0x30 + n else 0x57 + n

def digitValue? (b : UInt8) : Option UInt8 :=
  if 0x30 ≤ b ∧ b ≤ 0x39 then some (b - 0x30)
  else if 0x61 ≤ b ∧ b ≤ 0x66 then some (b - 0x57)
  else if 0x41 ≤ b ∧ b ≤ 0x46 then some (b - 0x37)
  else none

def encode : Bytes → Bytes
  | [] => []
  | b :: rest => digit (b >>> 4) :: digit (b &&& 0xf) :: encode rest

def digitAt (position : Nat) (b : UInt8) : Except Fault UInt8 :=
  match digitValue? b with
  | some v => .ok v
  | none => .error (.badDigit b position)

/-- The bytes written by pairs of digits, the first of which stands at `position`. -/
def decodeFrom (position : Nat) : Bytes → Except Fault Bytes
  | [] => .ok []
  | [_] => .error .oddLength
  | high :: low :: rest => do
    let h ← digitAt position high
    let l ← digitAt (position + 1) low
    let tail ← decodeFrom (position + 2) rest
    return ((h <<< 4) ||| l) :: tail

/-- The bytes written by a string of digits; an odd length is reported before any bad digit. -/
def decode (digits : Bytes) : Except Fault Bytes :=
  if digits.length % 2 = 1 then .error .oddLength else decodeFrom 0 digits

/-- The `n` bytes that a text names. -/
def parse (n : Nat) (text : String) : Except Fault Bytes := do
  let bytes ← decode (Bytes.ofString (String.ofList (Text.trim text.toList)))
  if bytes.length = n then return bytes else throw (.wrongCount n bytes.length)

def toText (bytes : Bytes) : String :=
  String.ofList ((encode bytes).map fun b => Char.ofNat b.toNat)

theorem digitValue?_digit (n : UInt8) (h : n < 16) : digitValue? (digit n) = some n := by
  have all : ∀ k : Fin 16, digitValue? (digit (UInt8.ofNat k)) = some (UInt8.ofNat k) := by decide
  have lt : n.toNat < 16 := UInt8.lt_iff_toNat_lt.1 h
  simpa using all ⟨n.toNat, lt⟩

@[simp] theorem encode_length (bytes : Bytes) : (encode bytes).length = 2 * bytes.length := by
  induction bytes with
  | nil => rfl
  | cons b rest ih => simp [encode, ih]; omega

end Hex

end Strongbox
