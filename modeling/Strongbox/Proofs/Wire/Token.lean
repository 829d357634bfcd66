import Strongbox.Wire.Token

/-!
# Rows of tokens read back

Reading takes exactly the bytes that writing gave, whatever follows them. So bytes written token by
token are read as the tokens that they were written from.
-/

namespace Strongbox.Wire

namespace Item

variable {i : Item}

/-- The item has as many bytes as its kind asks for, and not more than can be counted. -/
def Fits : Item → Prop
  | number _ | opening | closing => True
  | eight bytes => bytes.length = 8
  | four bytes => bytes.length = 4
  | block bytes => bytes.length < Word.count64

/-- Numbers and blocks, of which messages are made. -/
def IsValue : Item → Prop
  | number _ | block _ => True
  | _ => False

theorem code_lt (i : Item) : i.code < 8 := by cases i <;> simp [code]

theorem read_length {n : Nat} (h : n < Word.count64) (rest : Bytes) :
    Varint.read (Varint.write n ++ rest) = some (UInt64.ofNat n, rest) := by
  have fits : (UInt64.ofNat n).toNat = n := UInt64.toNat_ofNat_of_lt h
  simpa only [fits] using Varint.read_write (UInt64.ofNat n) rest

theorem read_write (fits : i.Fits) (rest : Bytes) :
    read i.code (i.write ++ rest) = some (i, rest) := by
  cases i with
  | number value => simp [read, code, write, Varint.read_write]
  | eight bytes =>
    have taken : take? 8 (bytes ++ rest) = some (bytes, rest) := fits ▸ take?_append bytes rest
    simp [read, code, write, taken]
  | block bytes =>
    have length_eq : (UInt64.ofNat bytes.length).toNat = bytes.length :=
      UInt64.toNat_ofNat_of_lt fits
    simp only [read, code, write, List.append_assoc, read_length fits, Option.bind_some,
      length_eq, take?_append, Option.map_some]
  | opening => rfl
  | closing => rfl
  | four bytes =>
    have taken : take? 4 (bytes ++ rest) = some (bytes, rest) := fits ▸ take?_append bytes rest
    simp [read, code, write, taken]

/-- The bytes of a block are among the bytes it is written as. -/
theorem length_le_write (bytes : Bytes) : bytes.length ≤ (block bytes).write.length := by
  simp [write]

end Item

namespace Token

variable {t : Token} {ts : List Token} {rest : Bytes}

/-- The field has a number that a key can hold, and the item fits. -/
structure Fits (t : Token) : Prop where
  field_pos : 0 < t.field
  key_lt : t.key < Word.count32
  item : t.item.Fits

theorem read_write (fits : t.Fits) (rest : Bytes) : read (t.write ++ rest) = some (t, rest) := by
  have code_lt := t.item.code_lt
  have key_eq : (UInt64.ofNat t.key).toNat = t.key :=
    UInt64.toNat_ofNat_of_lt (Nat.lt_trans fits.key_lt (by decide))
  have legal : ¬ (Word.count32 ≤ t.key ∨ t.key < 8) := by
    have := fits.key_lt
    have := fits.field_pos
    simp only [key] at *
    omega
  have field_eq : t.key / 8 = t.field := by simp only [key]; omega
  have code_eq : t.key % 8 = t.item.code := by simp only [key]; omega
  have key_read := Varint.read_write (UInt64.ofNat t.key) (t.item.write ++ rest)
  rw [key_eq] at key_read
  simp only [read, write, List.append_assoc, key_read, Option.bind_eq_bind, Option.bind_some,
    key_eq, if_neg legal, code_eq, Item.read_write fits.item, field_eq, Option.pure_def]

@[simp] theorem readAll_nil : readAll [] = some [] := by rw [readAll]

theorem readAll_of_read {b : Bytes} (h : read b = some (t, rest)) :
    readAll b = (readAll rest).map (t :: ·) := by
  cases b with
  | nil => exact absurd (read_length_lt h) (by simp)
  | cons x xs =>
    rw [readAll]
    split
    · rename_i stuck
      rw [h] at stuck
      cases stuck
    · rename_i other left found
      rw [h] at found
      cases found
      rfl

/-- The tokens that some bytes were written from come before those of what follows. -/
theorem readAll_write_append (fits : ∀ t ∈ ts, t.Fits) (rest : Bytes) :
    readAll (ts.flatMap write ++ rest) = (readAll rest).map (ts ++ ·) := by
  induction ts with
  | nil => simp
  | cons t ts ih =>
    obtain ⟨first, others⟩ := List.forall_mem_cons.1 fits
    rw [List.flatMap_cons, List.append_assoc, readAll_of_read (read_write first _), ih others,
      Option.map_map]
    rfl

/-- Bytes written token by token are read as these tokens. -/
theorem readAll_write (fits : ∀ t ∈ ts, t.Fits) : readAll (ts.flatMap write) = some ts := by
  simpa using readAll_write_append fits []

theorem outside_values {budget : Nat} (values : ∀ t ∈ ts, t.item.IsValue) (room : 0 < budget) :
    outside budget [] ts = some ts := by
  induction ts with
  | nil => rfl
  | cons t ts ih =>
    obtain ⟨value, others⟩ := List.forall_mem_cons.1 values
    obtain ⟨field, item⟩ := t
    have blocked : ¬ budget ≤ 0 := Nat.not_le.2 room
    cases item with
    | number | block => simp [outside, blocked, ih others]
    | eight | opening | closing | four => cases value

end Token

end Strongbox.Wire
