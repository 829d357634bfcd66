import Strongbox.Cipher.ChaCha
import Strongbox.Cipher.Poly1305
import Strongbox.Word

/-!
# Sealing

Authenticated encryption with a nonce of twenty-four bytes: a keystream over the text, then an
authenticator over the result.
-/

namespace Strongbox.Sealing

def nonceLength : Nat := 24

def tagLength : Nat := 16

/-- The key that the first sixteen bytes of the nonce select. -/
def sessionKey (key nonce : Bytes) : Bytes := ChaCha.subkey key (nonce.take 16)

/-- The nonce that the last eight bytes make. -/
def sessionNonce (nonce : Bytes) : Bytes := [0, 0, 0, 0] ++ nonce.drop 16

/-- The text combined with the keystream from block one on. -/
def crypt (key nonce text : Bytes) : Bytes :=
  Bytes.xor text
    (ChaCha.keystream (sessionKey key nonce) (sessionNonce nonce) 1 ((text.length + 63) / 64))

/-- The authenticator of a ciphertext body, keyed by block zero. -/
def authenticator (key nonce body : Bytes) : Bytes :=
  Poly1305.tag ((ChaCha.block (sessionKey key nonce) (sessionNonce nonce) 0).take 32)
    (body ++ Bytes.padding 16 body.length ++ Bytes.ofNatLE 8 0 ++ Bytes.ofNatLE 8 body.length)

/-- Texts of this many blocks or more cannot be sealed. -/
def blockLimit : Nat := Word.count32 - 1

def fits (text : Bytes) : Bool := text.length / 64 < blockLimit

/-- The sealed form of a text: its body, then the authenticator. -/
def close (key nonce text : Bytes) : Bytes :=
  let body := crypt key nonce text
  body ++ authenticator key nonce body

def open? (key nonce sealed : Bytes) : Option Bytes :=
  if sealed.length < tagLength then none
  else
    let body := sealed.take (sealed.length - tagLength)
    let tag := sealed.drop (sealed.length - tagLength)
    if fits body && authenticator key nonce body == tag then some (crypt key nonce body) else none

@[simp] theorem authenticator_length (key nonce body : Bytes) :
    (authenticator key nonce body).length = tagLength := by
  simp [authenticator, tagLength]

@[simp] theorem crypt_length (key nonce text : Bytes) :
    (crypt key nonce text).length = text.length := by
  simp [crypt]
  omega

/-- The keystream depends on the length of a text only, so a second pass undoes the first. -/
theorem crypt_crypt (key nonce text : Bytes) : crypt key nonce (crypt key nonce text) = text := by
  have h := crypt_length key nonce text
  rw [crypt, h]
  exact Bytes.xor_xor_cancel _ _ (by simp; omega)

theorem close_length (key nonce text : Bytes) :
    (close key nonce text).length = text.length + tagLength := by
  simp [close]

end Strongbox.Sealing
