import Strongbox.Wire.Varint
import Strongbox.Word

/-!
# Tokens

The written form of a message is a row of tokens. Each has a field number and an item: a number,
four or eight bytes, a block of any length, or one of the two ends of a group.
-/

namespace Strongbox.Wire

inductive Item where
  | number (value : UInt64)
  | eight (bytes : Bytes)
  | block (bytes : Bytes)
  | opening
  | closing
  | four (bytes : Bytes)
  deriving Repr, DecidableEq, Inhabited

/-- A field number with an item. -/
structure Token where
  field : Nat
  item : Item
  deriving Repr, DecidableEq, Inhabited

def take? (n : Nat) (b : Bytes) : Option (Bytes × Bytes) :=
  if n ≤ b.length then some (b.take n, b.drop n) else none

namespace Item

def code : Item → Nat
  | number _ => 0
  | eight _ => 1
  | block _ => 2
  | opening => 3
  | closing => 4
  | four _ => 5

/-- The bytes after the key. -/
def write : Item → Bytes
  | number value => Varint.write value.toNat
  | eight bytes | four bytes => bytes
  | block bytes => Varint.write bytes.length ++ bytes
  | opening | closing => []

def read (code : Nat) (b : Bytes) : Option (Item × Bytes) :=
  match code with
  | 0 => (Varint.read b).map fun (n, rest) => (number n, rest)
  | 1 => (take? 8 b).map fun (bytes, rest) => (eight bytes, rest)
  | 2 => (Varint.read b).bind fun (n, rest) =>
      (take? n.toNat rest).map fun (bytes, rest) => (block bytes, rest)
  | 3 => some (opening, b)
  | 4 => some (closing, b)
  | 5 => (take? 4 b).map fun (bytes, rest) => (four bytes, rest)
  | _ => none

end Item

theorem take?_length_le {n : Nat} {b bytes rest : Bytes} (h : take? n b = some (bytes, rest)) :
    rest.length ≤ b.length := by
  unfold take? at h
  split at h
  · simp only [Option.some.injEq, Prod.mk.injEq] at h
    simp [← h.2]
  · cases h

@[simp] theorem take?_append (b rest : Bytes) : take? b.length (b ++ rest) = some (b, rest) := by
  simp [take?]

theorem Item.read_length_le {code : Nat} {b rest : Bytes} {item : Item}
    (h : Item.read code b = some (item, rest)) : rest.length ≤ b.length := by
  unfold Item.read at h
  split at h
  · obtain ⟨⟨n, after⟩, hn, heq⟩ := Option.map_eq_some_iff.1 h
    simp only [Prod.mk.injEq] at heq
    exact heq.2 ▸ Nat.le_of_lt (Varint.read_length_lt hn)
  · obtain ⟨⟨n, after⟩, hn, heq⟩ := Option.map_eq_some_iff.1 h
    simp only [Prod.mk.injEq] at heq
    exact heq.2 ▸ take?_length_le hn
  · obtain ⟨⟨n, after⟩, hn, hrest⟩ := Option.bind_eq_some_iff.1 h
    obtain ⟨⟨bytes, left⟩, hb, heq⟩ := Option.map_eq_some_iff.1 hrest
    simp only [Prod.mk.injEq] at heq
    have := Varint.read_length_lt hn
    have := take?_length_le hb
    rw [← heq.2]
    omega
  · simp only [Option.some.injEq, Prod.mk.injEq] at h
    simp [h.2]
  · simp only [Option.some.injEq, Prod.mk.injEq] at h
    simp [h.2]
  · obtain ⟨⟨n, after⟩, hn, heq⟩ := Option.map_eq_some_iff.1 h
    simp only [Prod.mk.injEq] at heq
    exact heq.2 ▸ take?_length_le hn
  · cases h

namespace Token

/-- The number that stands for the field and the kind of item. -/
def key (t : Token) : Nat := 8 * t.field + t.item.code

def write (t : Token) : Bytes := Varint.write t.key ++ t.item.write

/-- The token at the start of some bytes. Fields are numbered from one, and keys fit a word of
thirty-two bits. -/
def read (b : Bytes) : Option (Token × Bytes) := do
  let (key, rest) ← Varint.read b
  if Word.count32 ≤ key.toNat ∨ key.toNat < 8 then none
  else
    let (item, after) ← Item.read (key.toNat % 8) rest
    return (⟨key.toNat / 8, item⟩, after)

theorem read_length_lt {b rest : Bytes} {t : Token} (h : read b = some (t, rest)) :
    rest.length < b.length := by
  obtain ⟨⟨key, after⟩, hkey, h⟩ := Option.bind_eq_some_iff.1 h
  dsimp only at h
  split at h
  · cases h
  · obtain ⟨⟨item, left⟩, hitem, h⟩ := Option.bind_eq_some_iff.1 h
    simp only [pure, Option.some.injEq, Prod.mk.injEq] at h
    have := Varint.read_length_lt hkey
    have := Item.read_length_le hitem
    rw [← h.2]
    omega

def readAll (b : Bytes) : Option (List Token) :=
  match b with
  | [] => some []
  | x :: xs =>
    match h : read (x :: xs) with
    | none => none
    | some (t, rest) =>
      have := read_length_lt h
      (readAll rest).map (t :: ·)
termination_by b.length
decreasing_by assumption

/-- The tokens outside every group, given the fields of the groups that are `opened`, innermost
first. Each group ends with the number it began with, and what lies inside `budget` groups or more
is refused. -/
def outside (budget : Nat) : (opened : List Nat) → List Token → Option (List Token)
  | [], [] => some []
  | _ :: _, [] => none
  | opened, t :: rest =>
    match t.item, opened with
    | .closing, [] => none
    | .closing, field :: outer => if t.field = field then outside budget outer rest else none
    | item, opened =>
      if budget ≤ opened.length then none
      else
        (outside budget (if item = .opening then t.field :: opened else opened) rest).map
          fun tail => if opened.isEmpty then t :: tail else tail

end Token

end Strongbox.Wire
