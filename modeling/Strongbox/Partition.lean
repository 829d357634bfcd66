import Strongbox.Span
import Strongbox.Word

/-!
# Partition

Cutting the chunk indices of a file into one range per worker. The ranges follow one another and
differ in length by at most one; with more workers than chunks the last ranges are empty.
-/

namespace Strongbox

/-- The workers that a setting stands for: at least one, then the low thirty-two bits of that. -/
def workerCount (setting : Nat) : Nat := max setting 1 % Word.count32

/-- `n` ranges in a row from `start`, each of `base` numbers and the first `extra` of one more. -/
def consecutive (start base extra : Nat) : Nat → List Span
  | 0 => []
  | n + 1 =>
    let stop := start + base + (if 0 < extra then 1 else 0)
    ⟨start, stop⟩ :: consecutive stop base (extra - 1) n

/-- The indices below `total`, one range per worker; none when the setting stands for no worker. -/
def partition (total setting : Nat) : Option (List Span) :=
  let workers := workerCount setting
  if workers = 0 then none
  else some (consecutive 0 (total / workers) (total % workers) workers)

@[simp] theorem consecutive_length (start base extra n : Nat) :
    (consecutive start base extra n).length = n := by
  induction n generalizing start extra with
  | zero => rfl
  | succ n ih => simp [consecutive, ih]

theorem partition_eq_none_iff (total setting : Nat) :
    partition total setting = none ↔ workerCount setting = 0 := by
  simp [partition]

end Strongbox
