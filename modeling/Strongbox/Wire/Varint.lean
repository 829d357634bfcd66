import Strongbox.Bytes
import Strongbox.Word

/-!
# Variable-length numbers

A number as bytes of seven bits, lowest first; every byte but the last has its high bit set.
-/

namespace Strongbox.Wire.Varint

/-- The shortest form of a number. -/
def write (n : Nat) : Bytes :=
  if n < 128 then [UInt8.ofNat n] else UInt8.ofNat (n % 128 + 128) :: write (n / 128)
termination_by n
decreasing_by omega

/-- The number that starts the bytes, in a form of at most `room` bytes. -/
def readWithin : (room : Nat) → Bytes → Option (Nat × Bytes)
  | 0, _ => none
  | _ + 1, [] => none
  | room + 1, b :: rest =>
    if b.toNat < 128 then some (b.toNat, rest)
    else (readWithin room rest).map fun (n, after) => (b.toNat - 128 + 128 * n, after)

def maxLength : Nat := 10

/-- The number that starts the bytes, which must fit a word of sixty-four bits. -/
def read (b : Bytes) : Option (UInt64 × Bytes) :=
  (readWithin maxLength b).bind fun (n, rest) =>
    if n < Word.count64 then some (UInt64.ofNat n, rest) else none

theorem readWithin_length_lt {room : Nat} {b rest : Bytes} {n : Nat}
    (h : readWithin room b = some (n, rest)) : rest.length < b.length := by
  induction room generalizing b n with
  | zero => simp [readWithin] at h
  | succ room ih =>
    cases b with
    | nil => simp [readWithin] at h
    | cons x b =>
      simp only [readWithin] at h
      split at h
      · simp only [Option.some.injEq, Prod.mk.injEq] at h
        simp [← h.2]
      · obtain ⟨⟨m, after⟩, hm, heq⟩ := Option.map_eq_some_iff.1 h
        simp only [Prod.mk.injEq] at heq
        have := ih (heq.2 ▸ hm)
        simp only [List.length_cons]
        omega

theorem read_length_lt {b rest : Bytes} {n : UInt64} (h : read b = some (n, rest)) :
    rest.length < b.length := by
  obtain ⟨⟨m, after⟩, hm, heq⟩ := Option.bind_eq_some_iff.1 h
  dsimp only at heq
  split at heq
  · simp only [Option.some.injEq, Prod.mk.injEq] at heq
    exact heq.2 ▸ readWithin_length_lt hm
  · cases heq

/-- How many numbers a row of groups of seven bits tells apart. -/
def capacity : (groups : Nat) → Nat
  | 0 => 1
  | n + 1 => 128 * capacity n

/-- Reading takes exactly what writing gave, whatever follows. -/
theorem readWithin_write (room n : Nat) (rest : Bytes) (h : n < capacity (room + 1)) :
    readWithin (room + 1) (write n ++ rest) = some (n, rest) := by
  induction room generalizing n with
  | zero =>
    have h : n < 128 := h
    rw [write, if_pos (by omega)]
    have : n % 256 = n := Nat.mod_eq_of_lt (by omega)
    simp [readWithin, this]
    omega
  | succ room ih =>
    rw [write]
    split
    · rename_i small
      have : n % 256 = n := Nat.mod_eq_of_lt (by omega)
      simp [readWithin, this, small]
    · have hq : n / 128 < capacity (room + 1) := Nat.div_lt_of_lt_mul h
      have hb : (n % 128 + 128) % 256 = n % 128 + 128 := Nat.mod_eq_of_lt (by omega)
      rw [List.cons_append, readWithin]
      simp only [UInt8.toNat_ofNat', hb, ih _ hq, Option.map_some]
      rw [if_neg (by omega)]
      simp only [Option.some.injEq, Prod.mk.injEq, and_true]
      omega

theorem read_write (w : UInt64) (rest : Bytes) :
    read (write w.toNat ++ rest) = some (w, rest) := by
  have lt := w.toNat_lt
  have h : w.toNat < capacity (9 + 1) := Nat.lt_trans lt (by decide)
  have fits : w.toNat < Word.count64 := lt
  simp [read, maxLength, readWithin_write 9 _ rest h, fits]

end Strongbox.Wire.Varint
