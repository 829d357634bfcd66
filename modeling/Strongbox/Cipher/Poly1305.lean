import Strongbox.Bytes

/-!
# Poly1305

A one-time authenticator: the message as a polynomial, evaluated modulo a prime.
-/

namespace Strongbox.Poly1305

/-- The modulus: five less than two to the power of one hundred and thirty. -/
def prime : Nat := 0x3fffffffffffffffffffffffffffffffb

/-- The bits that the point of evaluation may have. -/
def clamp (r : Nat) : Nat := r &&& 0x0ffffffc0ffffffc0ffffffc0fffffff

/-- The value of a message at `r`, added to `acc`. Each group of bytes is closed by a one. -/
def absorb (r acc : Nat) (message : Bytes) : Nat :=
  match message with
  | [] => acc
  | b :: rest =>
    absorb r ((acc + Bytes.toNatLE ((b :: rest).take 16 ++ [1])) * r % prime) ((b :: rest).drop 16)
termination_by message.length
decreasing_by
  simp only [List.length_drop, List.length_cons]
  omega

def tag (key message : Bytes) : Bytes :=
  let r := clamp (Bytes.toNatLE (key.take 16))
  let s := Bytes.toNatLE (key.drop 16)
  Bytes.ofNatLE 16 (absorb r 0 message + s)

@[simp] theorem tag_length (key message : Bytes) : (tag key message).length = 16 := by simp [tag]

end Strongbox.Poly1305
