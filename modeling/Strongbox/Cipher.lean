import Strongbox.Cipher.Sealing
import Strongbox.Failure

/-!
# Chunk cipher

Sealing the chunks of a file under one key, each with a nonce of its own.
-/

namespace Strongbox

/-- A key of thirty-two bytes. -/
structure Key where
  bytes : Bytes
  length_eq : bytes.length = 32
  deriving DecidableEq

namespace Key

def length : Nat := 32

def ofBytes? (b : Bytes) : Option Key := if h : b.length = 32 then some ⟨b, h⟩ else none

/-- What is shown of a key, which is nothing. -/
def shown (_ : Key) : String := "AeadKey(..)"

instance : Repr Key := ⟨fun k _ => k.shown⟩

end Key

structure Nonce where
  bytes : Bytes
  length_eq : bytes.length = Sealing.nonceLength
  deriving DecidableEq

/-- The name under which this way of sealing is stored. -/
def algorithmName : String := "xchacha20poly1305"

/-- A chunk as it is stored: what was sealed, how, and with which nonce. -/
structure Sealed where
  ciphertext : Bytes
  algorithm : String
  iv : Bytes
  deriving Repr, DecidableEq, Inhabited

def Key.sealWith (k : Key) (iv plain : Bytes) : Except Failure Sealed :=
  if Sealing.fits plain then .ok ⟨Sealing.close k.bytes iv plain, algorithmName, iv⟩
  else .error (.encryption "seal failed")

def Key.openWith (k : Key) (iv ciphertext : Bytes) : Except Failure Bytes :=
  if iv.length ≠ Sealing.nonceLength then
    .error (.decryption ("expected " ++ toString Sealing.nonceLength ++ "-byte IV, got "
      ++ toString iv.length))
  else
    match Sealing.open? k.bytes iv ciphertext with
    | some plain => .ok plain
    | none => .error (.decryption "authentication failed")

end Strongbox
