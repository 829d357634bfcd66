import Strongbox.Partition
import Strongbox.Proofs.Tiling

/-!
# The ranges of a partition
-/

namespace Strongbox

variable {total setting start base extra n : Nat} {ranges : List Span}

theorem tiles_consecutive (start base extra n : Nat) :
    Span.Tiles start (consecutive start base extra n) (start + (n * base + min n extra)) := by
  induction n generalizing start extra with
  | zero => simpa [consecutive] using Span.Tiles.nil start
  | succ n ih =>
    let stop := start + base + (if 0 < extra then 1 else 0)
    have rest : Span.Tiles stop (consecutive stop base (extra - 1) n)
        (stop + (n * base + min n (extra - 1))) := ih stop (extra - 1)
    have last : stop + (n * base + min n (extra - 1)) =
        start + ((n + 1) * base + min (n + 1) extra) := by
      rw [Nat.succ_mul]
      grind
    rw [last] at rest
    exact .cons (s := ⟨start, stop⟩) (by grind) rest

/-- The first ranges have one number more for as long as numbers are left over. -/
theorem map_length_consecutive (h : extra ≤ n) :
    (consecutive start base extra n).map Span.length =
      List.replicate extra (base + 1) ++ List.replicate (n - extra) base := by
  induction n generalizing start extra with
  | zero => simp [consecutive, Nat.le_zero.1 h]
  | succ n ih =>
    rw [consecutive, List.map_cons, Span.length, Nat.add_assoc, Nat.add_sub_cancel_left]
    cases extra with
    | zero => simpa [List.replicate_succ] using ih (Nat.zero_le n)
    | succ extra =>
      rw [Nat.add_sub_cancel, ih (Nat.le_of_succ_le_succ h), Nat.add_sub_add_right]
      rfl

/-- The shares of all workers, with those that have one number more, make up the whole. -/
theorem shares_eq (total : Nat) {workers : Nat} (h : workers ≠ 0) :
    workers * (total / workers) + min workers (total % workers) = total := by
  have left := Nat.mod_lt total (Nat.pos_of_ne_zero h)
  rw [Nat.min_eq_right (Nat.le_of_lt left), Nat.div_add_mod]

theorem tiles_of_partition (h : partition total setting = some ranges) :
    Span.Tiles 0 ranges total := by
  unfold partition at h
  dsimp only at h
  split at h
  · cases h
  · rename_i someone
    cases h
    have tiles := tiles_consecutive 0 (total / workerCount setting) (total % workerCount setting)
      (workerCount setting)
    rwa [shares_eq total someone, Nat.zero_add] at tiles

/-- The ranges of a partition hold each index once, and are cut from the indices. -/
theorem indices_of_partition (h : partition total setting = some ranges) :
    ranges.flatMap Span.indices = List.range total ∧
      ∀ range ∈ ranges, range.start ≤ range.stop ∧ range.stop ≤ total :=
  have tiles := tiles_of_partition h
  ⟨tiles.indices_of_zero, fun _ hr => (tiles.within hr).2⟩

/-- There is a partition for every setting of at least one worker that fits its word. -/
theorem exists_partition (total : Nat) (h : setting < Word.count32) :
    ∃ ranges, partition total setting = some ranges := by
  apply Option.ne_none_iff_exists'.1
  intro none
  have := (partition_eq_none_iff total setting).1 none
  rw [workerCount, Nat.mod_eq_of_lt (by simp only [Word.count32] at h ⊢; omega)] at this
  omega

end Strongbox
