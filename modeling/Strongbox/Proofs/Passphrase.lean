import Mathlib.Tactic.SplitIfs
import Strongbox.Passphrase

/-!
# When a key can be derived

A derived key has the length of a key, whatever it is derived from. So a derivation fails only on
a passphrase or a salt whose length is not accepted.
-/

namespace Strongbox

/-! ## Digests of a given length -/

/-- A digest is as long as asked, up to the sixty-four bytes of the last state. -/
theorem Blake2b.length_digest (n : Nat) (message : Bytes) :
    (digest n message).length = min n 64 := by
  have state (h : Vector UInt64 8) : (h.toList.flatMap Bytes.ofWord64).length = 64 := by
    have eight : ∀ w ∈ h.toList, (Bytes.ofWord64 w).length = 8 := fun _ _ => rfl
    rw [List.length_flatMap, List.map_congr_left eight, List.map_const', Vector.length_toList]
    rfl
  rw [digest, List.length_take, state]

namespace Argon2id

/-- A digest short enough for one link has the length that was asked for. -/
theorem length_longDigest {n : Nat} (short : n ≤ 64) (message : Bytes) :
    (longDigest n message).length = n := by
  rw [longDigest, if_pos short, Blake2b.length_digest, Nat.min_eq_left short]

theorem length_derive {n : Nat} (short : n ≤ 64) (cost : Cost) (secret salt : Bytes) :
    (derive cost n secret salt).length = n :=
  length_longDigest short _

end Argon2id

/-! ## Derived keys -/

def Derivable (passphrase salt : Bytes) : Prop :=
  8 ≤ salt.length ∧ salt.length < Word.count32 ∧ passphrase.length < Word.count32

variable {passphrase salt : Bytes}

theorem exists_ofBytes?_derive (cost : Argon2id.Cost) (passphrase salt : Bytes) :
    ∃ key, Key.ofBytes? (Argon2id.derive cost Key.length passphrase salt) = some key :=
  ⟨_, dif_pos (Argon2id.length_derive (by decide) cost passphrase salt)⟩

theorem not_maxDerivedLength_lt_iff {n : Nat} : ¬ maxDerivedLength < n ↔ n < Word.count32 := by
  rw [maxDerivedLength, Word.count32]
  omega

theorem exists_deriveKey (derivable : Derivable passphrase salt) :
    ∃ key, deriveKey passphrase salt = .ok key := by
  obtain ⟨long, shortSalt, shortSecret⟩ := derivable
  obtain ⟨key, derived⟩ := exists_ofBytes?_derive passphraseCost passphrase salt
  refine ⟨key, ?_⟩
  rw [deriveKey, minSaltLength, if_neg (Nat.not_lt.2 long), derived,
    if_neg (not_maxDerivedLength_lt_iff.2 shortSecret),
    if_neg (not_maxDerivedLength_lt_iff.2 shortSalt)]

/-- From other lengths nothing is derived, and the settings are to blame. -/
theorem deriveKey_of_not_derivable (unfit : ¬ Derivable passphrase salt) :
    ∃ text, deriveKey passphrase salt = .error (.config text) := by
  rw [deriveKey]
  split_ifs with short longSecret longSalt
  · exact ⟨_, rfl⟩
  · exact ⟨_, rfl⟩
  · exact ⟨_, rfl⟩
  · rw [not_maxDerivedLength_lt_iff] at longSecret longSalt
    exact absurd ⟨Nat.not_lt.1 short, longSalt, longSecret⟩ unfit

end Strongbox
