import Strongbox.Cipher
import Strongbox.Digest.Argon2id
import Strongbox.Word

/-!
# Passphrases

A key derived from a passphrase and a salt.
-/

namespace Strongbox

def minSaltLength : Nat := 8

/-- The longest passphrase and the longest salt that can be derived from. -/
def maxDerivedLength : Nat := Word.count32 - 1

/-- Nineteen mebibytes, two passes. -/
def passphraseCost : Argon2id.Cost := ⟨19456, 2⟩

def deriveKey (passphrase salt : Bytes) : Except Failure Key :=
  if salt.length < minSaltLength then
    .error (.config ("key salt must be at least " ++ toString minSaltLength ++ " bytes"))
  else if maxDerivedLength < passphrase.length then
    .error (.config "key derivation failed: password is too long")
  else if maxDerivedLength < salt.length then
    .error (.config "key derivation failed: salt is too long")
  else
    match Key.ofBytes? (Argon2id.derive passphraseCost Key.length passphrase salt) with
    | some key => .ok key
    | none => .error (.config "key derivation failed")

end Strongbox
