import Strongbox.Proofs.Bytes
import Strongbox.Text.Base64Url

/-!
# Base 64 read back

Three bytes are cut into four numbers of six bits, and each of them is written as one digit. The
numbers that are cut from some bytes join to these bytes, whether or not their number is a multiple
of three.
-/

namespace Strongbox.Base64Url

open Bytes (forall_byte)

/-- Bytes cut into numbers of six bits. What a last number lacks is filled with zeros. -/
def sextets : Bytes → List UInt8
  | [] => []
  | [a] => [a >>> 2, (a &&& 3) <<< 4]
  | [a, b] => [a >>> 2, (a &&& 3) <<< 4 ||| b >>> 4, (b &&& 15) <<< 2]
  | a :: b :: c :: rest =>
    (a >>> 2) :: ((a &&& 3) <<< 4 ||| b >>> 4) :: ((b &&& 15) <<< 2 ||| c >>> 6) :: (c &&& 63) ::
      sextets rest

theorem encode_eq (b : Bytes) : encode b = (sextets b).map digit := by
  fun_induction sextets b <;> simp_all [encode]

/-! ## Bits -/

theorem first_byte (a b : UInt8) : (a >>> 2) <<< 2 ||| ((a &&& 3) <<< 4 ||| b >>> 4) >>> 4 = a := by
  have own : (a >>> 2) <<< 2 ||| ((a &&& 3) <<< 4) >>> 4 = a := forall_byte (by decide +kernel) a
  have none : (b >>> 4) >>> 4 = 0 := forall_byte (by decide +kernel) b
  rw [UInt8.shiftRight_or, none, UInt8.or_zero, own]

theorem second_byte (a b c : UInt8) :
    ((a &&& 3) <<< 4 ||| b >>> 4) <<< 4 ||| ((b &&& 15) <<< 2 ||| c >>> 6) >>> 2 = b := by
  have own : (b >>> 4) <<< 4 ||| ((b &&& 15) <<< 2) >>> 2 = b := forall_byte (by decide +kernel) b
  have before : ((a &&& 3) <<< 4) <<< 4 = 0 := forall_byte (by decide +kernel) a
  have after : (c >>> 6) >>> 2 = 0 := forall_byte (by decide +kernel) c
  rw [UInt8.shiftLeft_or, UInt8.shiftRight_or, before, after, UInt8.zero_or, UInt8.or_zero, own]

theorem third_byte (b c : UInt8) : ((b &&& 15) <<< 2 ||| c >>> 6) <<< 6 ||| (c &&& 63) = c := by
  have own : (c >>> 6) <<< 6 ||| (c &&& 63) = c := forall_byte (by decide +kernel) c
  have before : ((b &&& 15) <<< 2) <<< 6 = 0 := forall_byte (by decide +kernel) b
  rw [UInt8.shiftLeft_or, before, UInt8.zero_or, own]

/-- The numbers join to the bytes that they were cut from. -/
theorem join_sextets (b : Bytes) : join (sextets b) = some b := by
  fun_induction sextets b with
  | case1 => rfl
  | case2 a =>
    have filled : (a &&& 3) <<< 4 &&& 15 = 0 := forall_byte (by decide +kernel) a
    have first : (a >>> 2) <<< 2 ||| ((a &&& 3) <<< 4) >>> 4 = a := by
      simpa using first_byte a 0
    rw [join, if_pos filled, first]
  | case3 a b =>
    have filled : (b &&& 15) <<< 2 &&& 3 = 0 := forall_byte (by decide +kernel) b
    have second : ((a &&& 3) <<< 4 ||| b >>> 4) <<< 4 ||| ((b &&& 15) <<< 2) >>> 2 = b := by
      simpa using second_byte a b 0
    rw [join, if_pos filled, first_byte, second]
  | case4 a b c rest ih =>
    rw [join, ih, first_byte, second_byte, third_byte, Option.map_some]

/-! ## Digits -/

theorem or_lt {u v : UInt8} (hu : u < 64) (hv : v < 64) : u ||| v < 64 := by
  rw [UInt8.lt_iff_toNat_lt, UInt8.toNat_or]
  exact Nat.or_lt_two_pow (n := 6) hu hv

theorem sextets_lt (b : Bytes) : ∀ n ∈ sextets b, n < 64 := by
  have high (a : UInt8) : a >>> 2 < 64 := forall_byte (by decide +kernel) a
  have low (a : UInt8) : (a &&& 3) <<< 4 < 64 := forall_byte (by decide +kernel) a
  have half (b : UInt8) : b >>> 4 < 64 := forall_byte (by decide +kernel) b
  have half' (b : UInt8) : (b &&& 15) <<< 2 < 64 := forall_byte (by decide +kernel) b
  have top (c : UInt8) : c >>> 6 < 64 := forall_byte (by decide +kernel) c
  have last (c : UInt8) : c &&& 63 < 64 := forall_byte (by decide +kernel) c
  fun_induction sextets b with
  | case1 => simp
  | case2 a => simp [high, low]
  | case3 a b => simp [high, half', or_lt (low a) (half b)]
  | case4 a b c rest ih =>
    simpa [high, last, or_lt (low a) (half b), or_lt (half' b) (top c)] using ih

theorem digitValue?_digit (n : UInt8) : n < 64 → digitValue? (digit n) = some n :=
  forall_byte (by decide +kernel) n

theorem decode?_encode (b : Bytes) : decode? (encode b) = some b := by
  have values : (encode b).mapM digitValue? = some (sextets b) := by
    rw [encode_eq, List.mapM_map]
    have lt := sextets_lt b
    generalize sextets b = numbers at lt
    induction numbers with
    | nil => rfl
    | cons n numbers ih =>
      obtain ⟨first, others⟩ := List.forall_mem_cons.1 lt
      simp [digitValue?_digit n first, ih others]
  rw [decode?, values, Option.bind_some, join_sextets]

/-- Digits lie strictly between the blank and the last of the control bytes. -/
theorem encode_range (b : Bytes) : ∀ d ∈ encode b, 0x20 < d ∧ d < 0x7f := by
  have range : ∀ n, n < 64 → 0x20 < digit n ∧ digit n < 0x7f :=
    fun n => forall_byte (by decide +kernel) n
  rw [encode_eq]
  exact List.forall_mem_map.2 fun n hn => range n (sextets_lt b n hn)

end Strongbox.Base64Url
