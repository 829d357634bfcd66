import Mathlib.Algebra.Order.Floor.Div
import Strongbox.Word

/-!
# Arithmetic that stays within a word

Sizes, counts and offsets are natural numbers here, and words of a fixed width where they are
computed. A step that leaves its word stops the computation. The operations below stop there too, so
a computation with them that comes to a result has never left its words.
-/

namespace Strongbox.Word

variable {count a b : Nat}

def add? (count a b : Nat) : Option Nat := if a + b < count then some (a + b) else none

def sub? (a b : Nat) : Option Nat := if b ≤ a then some (a - b) else none

def mul? (count a b : Nat) : Option Nat := if a * b < count then some (a * b) else none

/-- A quotient rounded up: one more than the quotient if something remains. -/
def ceilDiv? (count a b : Nat) : Option Nat :=
  if b = 0 then none else if 0 < a % b then add? count (a / b) 1 else some (a / b)

@[simp] theorem add?_eq (h : a + b < count) : add? count a b = some (a + b) := if_pos h

@[simp] theorem sub?_eq (h : b ≤ a) : sub? a b = some (a - b) := if_pos h

@[simp] theorem mul?_eq (h : a * b < count) : mul? count a b = some (a * b) := if_pos h

/-- Words of sixty-four bits hold the products of words of thirty-two. -/
theorem mul_lt (ha : a < count32) (hb : b < count32) : a * b < count64 :=
  calc a * b ≤ a * count32 := Nat.mul_le_mul_left _ (Nat.le_of_lt hb)
    _ < count32 * count32 := Nat.mul_lt_mul_of_pos_right ha (by decide)
    _ = count64 := by decide

/-- A quotient rounded up never leaves the word of what is divided. -/
theorem ceilDiv?_eq (pos : 0 < b) (h : a < count) : ceilDiv? count a b = some (a ⌈/⌉ b) := by
  have split := Nat.div_add_mod a b
  have rest := Nat.mod_lt a pos
  rw [ceilDiv?, if_neg (Nat.ne_of_gt pos), Nat.ceilDiv_eq_add_pred_div]
  by_cases whole : a % b = 0
  · have up : (a + b - 1) / b = a / b := by
      rw [Nat.div_eq_iff pos]
      rw [whole, Nat.add_zero] at split
      rw [Nat.mul_comm]
      omega
    rw [if_neg (by omega), up]
  · have up : (a + b - 1) / b = a / b + 1 := by
      rw [Nat.div_eq_iff pos, Nat.succ_mul, Nat.mul_comm]
      omega
    -- something remains, so the divisor is at least two
    have small : a / b + 1 ≤ a := Nat.div_lt_self (by omega) (by omega)
    rw [if_pos (by omega), add?_eq (by omega), up]

end Strongbox.Word
