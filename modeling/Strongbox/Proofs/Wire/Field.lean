import Strongbox.Proofs.Wire.Token

/-!
# Fields on the wire

What a field may look like, whoever wrote it: numbers need not be in their shortest form, and groups
may hold further fields. Reading takes exactly one field of this kind, and outside of it nothing is
left open.
-/

namespace Strongbox.Wire

/-! ## Numbers -/

namespace Varint

variable {n m room : Nat} {b rest : Bytes}

/-- The bytes write the number, seven bits each, lowest first. Bits that are zero may follow. -/
inductive Form : (n : Nat) → Bytes → Prop
  | last {x : UInt8} : x.toNat < 128 → Form x.toNat [x]
  | more {x : UInt8} {n : Nat} {rest : Bytes} :
      128 ≤ x.toNat → Form n rest → Form (x.toNat - 128 + 128 * n) (x :: rest)

/-- The bytes write the number, which fits a word of sixty-four bits, and are no more than such a
word takes. -/
structure Writes (n : Nat) (b : Bytes) : Prop where
  form : Form n b
  length_le : b.length ≤ maxLength
  lt : n < Word.count64

theorem readWithin_form (h : Form n b) (fits : b.length ≤ room) (rest : Bytes) :
    readWithin room (b ++ rest) = some (n, rest) := by
  induction h generalizing room with
  | @last x low =>
    cases room with
    | zero => simp at fits
    | succ room => simp [readWithin, low]
  | @more x n tail high _ ih =>
    cases room with
    | zero => simp at fits
    | succ room =>
      have tail_fits : tail.length ≤ room := by simpa using fits
      rw [List.cons_append, readWithin, if_neg (Nat.not_lt.2 high), ih tail_fits]
      rfl

theorem Writes.read (h : Writes n b) (rest : Bytes) :
    read (b ++ rest) = some (UInt64.ofNat n, rest) := by
  simp [Varint.read, readWithin_form h.form h.length_le, h.lt]

theorem length_write_le_of_le (h : m ≤ n) : (write m).length ≤ (write n).length := by
  induction n using Nat.strongRecOn generalizing m with
  | ind n ih =>
    rw [write.eq_1 m, write.eq_1 n]
    by_cases small : m < 128
    · rw [if_pos small]
      split <;> simp
    · rw [if_neg small, if_neg (by omega)]
      simpa using ih (n / 128) (by omega) (Nat.div_le_div_right h)

theorem writes_byte {x : UInt8} (low : x.toNat < 128) : Writes x.toNat [x] :=
  ⟨.last low, Nat.succ_pos 9, Nat.lt_trans low (by decide)⟩

theorem form_write (n : Nat) : Form n (write n) := by
  induction n using Nat.strongRecOn with
  | ind n ih =>
    rw [write]
    split
    · rename_i small
      have last : Form (UInt8.ofNat n).toNat [UInt8.ofNat n] := .last (by simp; omega)
      rwa [UInt8.toNat_ofNat_of_lt' (by simp [UInt8.size]; omega)] at last
    · have byte : (UInt8.ofNat (n % 128 + 128)).toNat = n % 128 + 128 :=
        UInt8.toNat_ofNat_of_lt' (by simp [UInt8.size]; omega)
      have more := Form.more (x := UInt8.ofNat (n % 128 + 128)) (by omega) (ih (n / 128) (by omega))
      have whole : (UInt8.ofNat (n % 128 + 128)).toNat - 128 + 128 * (n / 128) = n := by omega
      rwa [whole] at more

theorem length_write_le (h : n < capacity (room + 1)) : (write n).length ≤ room + 1 := by
  induction room generalizing n with
  | zero => simp [write.eq_1 n, show n < 128 from h]
  | succ room ih =>
    rw [write]
    split
    · simp
    · simpa using ih (Nat.div_lt_of_lt_mul h)

theorem writes_write (h : n < Word.count64) : Writes n (write n) where
  form := form_write n
  length_le := length_write_le (Nat.lt_trans h (by decide))
  lt := h

end Varint

/-! ## Fields -/

/-- The bytes are the key of a field with an item of some kind. -/
structure IsKey (field code : Nat) (b : Bytes) : Prop where
  pos : 0 < field
  lt : 8 * field + code < Word.count32
  writes : Varint.Writes (8 * field + code) b

theorem isKey_byte {x : UInt8} {field code : Nat} (pos : 0 < field) (low : x.toNat < 128)
    (key : x.toNat = 8 * field + code) : IsKey field code [x] where
  pos := pos
  lt := by simp only [Word.count32]; omega
  writes := key ▸ Varint.writes_byte low

/-- The bytes are one field with this number, and have no more than `levels` levels: an item is one
level, and a group is one level more than the fields in it. -/
inductive IsField : (levels field : Nat) → Bytes → Prop
  | number {levels field n : Nat} {key value : Bytes} :
      IsKey field 0 key → Varint.Writes n value → IsField (levels + 1) field (key ++ value)
  | eight {levels field : Nat} {key bytes : Bytes} :
      IsKey field 1 key → bytes.length = 8 → IsField (levels + 1) field (key ++ bytes)
  | block {levels field : Nat} {key length bytes : Bytes} :
      IsKey field 2 key → Varint.Writes bytes.length length →
        IsField (levels + 1) field (key ++ (length ++ bytes))
  | group {levels field : Nat} {opening closing : Bytes} {parts : List (Nat × Bytes)} :
      IsKey field 3 opening → (∀ part ∈ parts, IsField levels part.1 part.2) →
        IsKey field 4 closing →
        IsField (levels + 1) field (opening ++ (parts.flatMap (·.2) ++ closing))
  | four {levels field : Nat} {key bytes : Bytes} :
      IsKey field 5 key → bytes.length = 4 → IsField (levels + 1) field (key ++ bytes)

namespace Token

variable {u v rest : Bytes} {t : Token} {ts more : List Token} {field code levels budget : Nat}
  {opened : List Nat}

/-- Whatever follows them, the bytes are read as these tokens. -/
def Reads (u : Bytes) (ts : List Token) : Prop :=
  ∀ rest, readAll (u ++ rest) = (readAll rest).map (ts ++ ·)

theorem Reads.nil : Reads [] [] := fun rest => by simp

theorem Reads.of_read (h : ∀ rest, read (u ++ rest) = some (t, rest)) : Reads u [t] :=
  fun rest => readAll_of_read (h rest)

theorem Reads.append (hu : Reads u ts) (hv : Reads v more) : Reads (u ++ v) (ts ++ more) := by
  intro rest
  rw [List.append_assoc, hu, hv, Option.map_map]
  simp [Function.comp_def]

/-- Where `levels` levels are left, the tokens close every group that they open: what follows lies
in the same groups as what stands before. Of the tokens those that lie outside every group have one
field number. -/
structure Passes (levels field : Nat) (ts : List Token) : Prop where
  inside : ∀ {budget opened}, opened ≠ [] → opened.length + levels ≤ budget →
    ∀ more, outside budget opened (ts ++ more) = outside budget opened more
  outer : ∀ {budget}, levels ≤ budget → ∃ kept : List Token, (∀ t ∈ kept, t.field = field) ∧
    ∀ more, outside budget [] (ts ++ more) = (outside budget [] more).map (kept ++ ·)

theorem reads_of_isKey {item : Item} (key : IsKey field code v) (small : code < 8)
    (h : ∀ rest, Item.read code (u ++ rest) = some (item, rest)) :
    Reads (v ++ u) [⟨field, item⟩] := by
  refine Reads.of_read fun rest => ?_
  have key_eq : (UInt64.ofNat (8 * field + code)).toNat = 8 * field + code :=
    UInt64.toNat_ofNat_of_lt (Nat.lt_trans key.lt (by decide))
  have legal : ¬ (Word.count32 ≤ 8 * field + code ∨ 8 * field + code < 8) := by
    have := key.lt
    have := key.pos
    omega
  have field_eq : (8 * field + code) / 8 = field := by omega
  have code_eq : (8 * field + code) % 8 = code := by omega
  simp only [read, List.append_assoc, key.writes.read, Option.bind_eq_bind, Option.bind_some,
    key_eq, if_neg legal, code_eq, h, field_eq, Option.pure_def]

theorem outside_cons {item : Item} (other : item ≠ .closing) (room : opened.length < budget) :
    outside budget opened (⟨field, item⟩ :: more) =
      (outside budget (if item = .opening then field :: opened else opened) more).map
        fun tail => if opened.isEmpty then ⟨field, item⟩ :: tail else tail := by
  have deep : ¬ budget ≤ opened.length := Nat.not_le.2 room
  cases item with
  | closing => exact absurd rfl other
  | _ => cases opened <;> exact if_neg deep

/-- An item that neither opens nor closes a group is passed at any depth. -/
theorem passes_single {item : Item} (closed : item ≠ .closing) (plain : item ≠ .opening) :
    Passes (levels + 1) field [⟨field, item⟩] where
  inside {budget opened} nonempty room more := by
    have inner : opened.isEmpty = false := by simpa using nonempty
    rw [List.singleton_append, outside_cons closed (by omega)]
    simp [plain, inner]
  outer {budget} room := by
    refine ⟨[⟨field, item⟩], by simp, fun more => ?_⟩
    rw [List.singleton_append, outside_cons closed (Nat.lt_of_lt_of_le (Nat.succ_pos levels) room)]
    simp [plain]

theorem exists_inside {parts : List (Nat × Bytes)}
    (h : ∀ part ∈ parts, ∃ ts, Reads part.2 ts ∧ Passes levels part.1 ts) :
    ∃ ts, Reads (parts.flatMap (·.2)) ts ∧ ∀ {budget opened}, opened ≠ [] →
      opened.length + levels ≤ budget →
        ∀ more, outside budget opened (ts ++ more) = outside budget opened more := by
  induction parts with
  | nil => exact ⟨[], Reads.nil, fun _ _ _ => rfl⟩
  | cons part parts ih =>
    obtain ⟨first, others⟩ := List.forall_mem_cons.1 h
    obtain ⟨ts, reads, passes⟩ := first
    obtain ⟨rest, reads', inside⟩ := ih others
    refine ⟨ts ++ rest, reads.append reads', fun nonempty room more => ?_⟩
    rw [List.append_assoc, passes.inside nonempty room, inside nonempty room]

theorem passes_group (inside : ∀ {budget opened}, opened ≠ [] → opened.length + levels ≤ budget →
      ∀ more, outside budget opened (ts ++ more) = outside budget opened more) :
    Passes (levels + 1) field (⟨field, .opening⟩ :: (ts ++ [⟨field, .closing⟩])) := by
  have whole {budget : Nat} {opened : List Nat} (room : opened.length + (levels + 1) ≤ budget)
      (more : List Token) :
      outside budget opened (⟨field, .opening⟩ :: (ts ++ [⟨field, .closing⟩]) ++ more) =
        (outside budget opened more).map
          fun tail => if opened.isEmpty then ⟨field, .opening⟩ :: tail else tail := by
    have opens : Item.opening ≠ .closing := nofun
    have deeper : (field :: opened).length + levels ≤ budget := by
      simp only [List.length_cons]
      omega
    rw [List.cons_append, outside_cons opens (by omega), if_pos rfl, List.append_assoc,
      inside (by simp) deeper]
    simp [outside]
  constructor
  · intro budget opened nonempty room more
    have inner : opened.isEmpty = false := by simpa using nonempty
    rw [whole room]
    simp [inner]
  · intro budget room
    exact ⟨[⟨field, .opening⟩], by simp, fun more => by rw [whole (by simpa using room)]; rfl⟩

end Token

/-- Tokens that begin no group and end none are written as fields. -/
theorem Token.Fits.isField {t : Token} {levels : Nat} (fits : t.Fits) (closed : t.item ≠ .closing)
    (plain : t.item ≠ .opening) : IsField (levels + 1) t.field t.write := by
  have isKey : IsKey t.field t.item.code (Varint.write t.key) :=
    ⟨fits.field_pos, fits.key_lt, Varint.writes_write (Nat.lt_trans fits.key_lt (by decide))⟩
  obtain ⟨field, item⟩ := t
  cases item with
  | number value => exact .number isKey (Varint.writes_write value.toNat_lt)
  | eight bytes => exact .eight isKey fits.item
  | block bytes => exact .block isKey (Varint.writes_write fits.item)
  | opening => exact absurd rfl plain
  | closing => exact absurd rfl closed
  | four bytes => exact .four isKey fits.item

/-- A field is read as tokens that close every group that they open. -/
theorem IsField.passes {levels field : Nat} {u : Bytes} (h : IsField levels field u) :
    ∃ ts, Token.Reads u ts ∧ Token.Passes levels field ts := by
  induction h with
  | @number _ field n key value isKey writes =>
    refine ⟨[⟨field, .number (UInt64.ofNat n)⟩],
      Token.reads_of_isKey isKey (by decide) fun rest => ?_,
      Token.passes_single (by simp) (by simp)⟩
    simp only [Item.read, writes.read, Option.map_some]
  | @eight _ field key bytes isKey length =>
    refine ⟨[⟨field, .eight bytes⟩], Token.reads_of_isKey isKey (by decide) fun rest => ?_,
      Token.passes_single (by simp) (by simp)⟩
    simp only [Item.read, ← length, take?_append, Option.map_some]
  | @block _ field key length bytes isKey writes =>
    refine ⟨[⟨field, .block bytes⟩], Token.reads_of_isKey isKey (by decide) fun rest => ?_,
      Token.passes_single (by simp) (by simp)⟩
    have length_eq : (UInt64.ofNat bytes.length).toNat = bytes.length :=
      UInt64.toNat_ofNat_of_lt writes.lt
    simp only [Item.read, List.append_assoc, writes.read, Option.bind_some, length_eq,
      take?_append, Option.map_some]
  | @group _ field opening closing parts opens _ closes ih =>
    obtain ⟨ts, reads, inside⟩ := Token.exists_inside ih
    have first : Token.Reads opening [⟨field, .opening⟩] := by
      simpa using Token.reads_of_isKey (u := []) opens (by decide) fun rest => rfl
    have last : Token.Reads closing [⟨field, .closing⟩] := by
      simpa using Token.reads_of_isKey (u := []) closes (by decide) fun rest => rfl
    exact ⟨_, first.append (reads.append last), Token.passes_group inside⟩
  | @four _ field key bytes isKey length =>
    refine ⟨[⟨field, .four bytes⟩], Token.reads_of_isKey isKey (by decide) fun rest => ?_,
      Token.passes_single (by simp) (by simp)⟩
    simp only [Item.read, ← length, take?_append, Option.map_some]

end Strongbox.Wire
