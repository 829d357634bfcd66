import Strongbox.Word

/-!
# Numbers sent as signed words
-/

namespace Strongbox.Word

variable {n k : Nat}

theorem toInt_ofNat32 (h : n ≤ maxInt32) : (Int32.ofNat n).toInt = n :=
  Int32.toInt_ofNat_of_lt (Nat.lt_succ_of_le h)

theorem toNat_ofNat32 (h : n ≤ maxInt32) : (Int32.ofNat n).toInt.toNat = n := by
  rw [toInt_ofNat32 h, Int.toNat_natCast]

/-- A number of the word that is too great for a signed one arrives as a negative number. -/
theorem toInt_ofNat32_of_gt (great : maxInt32 < n) (h : n < count32) :
    (Int32.ofNat n).toInt = n - (count32 : Nat) := by
  rw [Int32.toInt_ofNat', Int.bmod_def, Int32.size]
  simp only [count32, maxInt32] at h great ⊢
  split <;> omega

/-- Read without a sign, every number that fits the word is as it was sent. -/
theorem toNat_toUInt32_ofNat (h : n < count32) : (Int32.ofNat n).toUInt32.toNat = n :=
  UInt32.toNat_ofNat_of_lt h

theorem toInt_ofNat64 (h : n ≤ maxInt64) : (Int64.ofNat n).toInt = n :=
  Int64.toInt_ofNat_of_lt (Nat.lt_succ_of_le h)

theorem of_toInt32 (h : n < count32) (arrives : (k : Int) = (Int32.ofNat n).toInt) :
    k = n ∧ n ≤ maxInt32 := by
  rw [Int32.toInt_ofNat', Int.bmod_def, Int32.size] at arrives
  simp only [count32, maxInt32] at h ⊢
  split at arrives <;> omega

theorem of_toInt64 (h : n < count64) (arrives : (k : Int) = (Int64.ofNat n).toInt) :
    k = n ∧ n ≤ maxInt64 := by
  rw [Int64.toInt_ofNat', Int.bmod_def, Int64.size] at arrives
  simp only [count64, maxInt64] at h ⊢
  split at arrives <;> omega

end Strongbox.Word
