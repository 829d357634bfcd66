import Strongbox.Proofs.Partition
import Strongbox.Proofs.Word.Checked

/-!
# How evenly a partition shares

The ranges of a partition differ in length by at most one, the longer ones first. They are found one
after another in words of thirty-two bits, and no end of a range ever leaves its word.

## Main definitions

* `rangesInWords`, `partitionInWords`: the ranges, found one after another in words.

## Main statements

* `partitionInWords_eq`: no end of a range leaves its word.
* `partition_balanced`: for which settings there is a partition, and what it is.
-/

namespace Strongbox

variable {start base extra n i : Nat}

/-- The ranges of the workers from the `i`th on, the first of them from `start`: each of `base`
numbers, and of one more for the first `extra` workers. -/
def rangesInWords (base extra : Nat) : (workers i start : Nat) → Option (List Span)
  | 0, _, _ => some []
  | n + 1, i, start => do
    let whole ← Word.add? Word.count32 start base
    let stop ← Word.add? Word.count32 whole (if i < extra then 1 else 0)
    let rest ← rangesInWords base extra n (i + 1) stop
    return ⟨start, stop⟩ :: rest

/-- The partition, found in words. There is none for no worker. -/
def partitionInWords (total setting : Nat) : Option (List Span) :=
  let workers := workerCount setting
  if workers = 0 then none
  else rangesInWords (total / workers) (total % workers) workers 0 0

/-- If the last range ends within the word, so do all before it. -/
theorem rangesInWords_eq (h : start + (n * base + min n (extra - i)) < Word.count32) :
    rangesInWords base extra n i start = some (consecutive start base (extra - i) n) := by
  induction n generalizing start i with
  | zero => rfl
  | succ n ih =>
    let more := if i < extra then 1 else 0
    have same : (if 0 < extra - i then 1 else 0) = more := by grind
    have last : start + base + more + (n * base + min n (extra - (i + 1))) =
        start + ((n + 1) * base + min (n + 1) (extra - i)) := by
      rw [Nat.succ_mul]
      grind
    have rest : rangesInWords base extra n (i + 1) (start + base + more) =
        some (consecutive (start + base + more) base (extra - (i + 1)) n) := ih (last ▸ h)
    have whole : Word.add? Word.count32 start base = some (start + base) :=
      Word.add?_eq (by omega)
    have stop : Word.add? Word.count32 (start + base) more = some (start + base + more) :=
      Word.add?_eq (by omega)
    simp only [rangesInWords, consecutive, whole, stop, rest, same, Option.bind_eq_bind,
      Option.bind_some, Option.pure_def, Nat.sub_sub, more]

/-- No end of a range leaves its word, as the last one is the number of chunks. -/
theorem partitionInWords_eq {total : Nat} (setting : Nat) (h : total < Word.count32) :
    partitionInWords total setting = partition total setting := by
  rw [partitionInWords, partition]
  split
  · rfl
  · rename_i someone
    exact rangesInWords_eq (by rwa [Nat.sub_zero, shares_eq total someone, Nat.zero_add])

/-- For every number of chunks and every setting, both of their words: there is no partition just if
the setting, raised to one and cut to thirty-two bits, stands for no worker. Otherwise the ranges
are one for each worker, follow one another from zero to the number of chunks, and so hold each
index once; the first of them are longer by one, as many as chunks are left over. No end of a range
leaves its word. -/
theorem partition_balanced (total : UInt32) (setting : UInt64) :
    let chunks := total.toNat
    let workers := max setting.toNat 1 % Word.count32
    partitionInWords chunks setting.toNat = partition chunks setting.toNat ∧
    (workers = 0 → partition chunks setting.toNat = none) ∧
    (workers ≠ 0 → ∃ ranges, partition chunks setting.toNat = some ranges ∧
      ranges.length = workers ∧ Span.Tiles 0 ranges chunks ∧
      ranges.flatMap Span.indices = List.range chunks ∧
      ranges.map Span.length = List.replicate (chunks % workers) (chunks / workers + 1) ++
        List.replicate (workers - chunks % workers) (chunks / workers)) := by
  intro chunks workers
  refine ⟨partitionInWords_eq _ total.toNat_lt, fun nobody => (partition_eq_none_iff ..).2 nobody,
    fun someone => ?_⟩
  have left : chunks % workers ≤ workers :=
    Nat.le_of_lt (Nat.mod_lt _ (Nat.pos_of_ne_zero someone))
  have made : partition chunks setting.toNat =
      some (consecutive 0 (chunks / workers) (chunks % workers) workers) := if_neg someone
  have tiles := tiles_of_partition made
  exact ⟨_, made, consecutive_length .., tiles, tiles.indices_of_zero, map_length_consecutive left⟩

/-- Seven chunks for three workers, and for a setting whose low bits are zero. -/
theorem partition_balanced_of_seven :
    (∃ ranges, partition 7 3 = some ranges ∧ ranges.length = 3 ∧ Span.Tiles 0 ranges 7 ∧
      ranges.map Span.length = [3, 2, 2]) ∧
    partition 7 0x100000000 = none := by
  obtain ⟨ranges, made, length_eq, tiles, -, lengths⟩ :=
    (partition_balanced 7 3).2.2 (by decide)
  exact ⟨⟨ranges, made, length_eq, tiles, lengths⟩,
    (partition_balanced 7 0x100000000).2.1 (by decide)⟩

end Strongbox
