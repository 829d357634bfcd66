/-!
# Bytes

Strings of bytes, and numbers written as bytes.
-/

namespace Strongbox

abbrev Bytes := List UInt8

namespace Bytes

def ofString (s : String) : Bytes := s.toUTF8.data.toList

def toString? (b : Bytes) : Option String := String.fromUTF8? ⟨b.toArray⟩

/-- The `n` low bytes of a number, lowest first. -/
def ofNatLE : (n : Nat) → Nat → Bytes
  | 0, _ => []
  | n + 1, v => UInt8.ofNat v :: ofNatLE n (v / 256)

/-- The number whose bytes these are, lowest first. -/
def toNatLE : Bytes → Nat
  | [] => 0
  | b :: rest => b.toNat + 256 * toNatLE rest

/-- Four bytes as a word. -/
def word32 (a b c d : UInt8) : UInt32 :=
  a.toUInt32 ||| (b.toUInt32 <<< 8) ||| (c.toUInt32 <<< 16) ||| (d.toUInt32 <<< 24)

/-- The bytes four at a time; bytes short of a word are dropped. -/
def words32 : Bytes → List UInt32
  | a :: b :: c :: d :: rest => word32 a b c d :: words32 rest
  | _ => []

def ofWord32 (w : UInt32) : Bytes :=
  [w.toUInt8, (w >>> 8).toUInt8, (w >>> 16).toUInt8, (w >>> 24).toUInt8]

def words64 : Bytes → List UInt64
  | a :: b :: c :: d :: e :: f :: g :: h :: rest =>
    ((word32 a b c d).toUInt64 ||| ((word32 e f g h).toUInt64 <<< 32)) :: words64 rest
  | _ => []

def ofWord64 (w : UInt64) : Bytes :=
  ofWord32 w.toUInt32 ++ ofWord32 (w >>> 32).toUInt32

/-- Two strings combined byte by byte, as far as the shorter goes. -/
def xor (a b : Bytes) : Bytes := List.zipWith (· ^^^ ·) a b

/-- Zeros that fill `n` bytes up to a multiple of `unit`. -/
def padding (unit n : Nat) : Bytes := List.replicate ((unit - n % unit) % unit) 0

@[simp] theorem ofNatLE_length (n v : Nat) : (ofNatLE n v).length = n := by
  induction n generalizing v with
  | zero => rfl
  | succ n ih => simp [ofNatLE, ih]

@[simp] theorem ofWord32_length (w : UInt32) : (ofWord32 w).length = 4 := rfl

@[simp] theorem xor_length (a b : Bytes) : (xor a b).length = min a.length b.length := by
  simp [xor]

/-- Combining twice with the same key gives the text back, if the key is long enough. -/
theorem xor_xor_cancel (a k : Bytes) (h : a.length ≤ k.length) : xor (xor a k) k = a := by
  induction a generalizing k with
  | nil => simp [xor]
  | cons x a ih =>
    cases k with
    | nil => simp at h
    | cons y k =>
      have := ih k (by simpa using h)
      simp only [xor, List.zipWith_cons_cons] at this ⊢
      rw [this, UInt8.xor_assoc, UInt8.xor_self, UInt8.xor_zero]

@[simp] theorem toString?_ofString (s : String) : toString? (ofString s) = some s := by
  simp only [toString?, ofString, String.fromUTF8?]
  exact dif_pos s.isValidUTF8

theorem ofString_append (s t : String) : ofString (s ++ t) = ofString s ++ ofString t := by
  simp [ofString]

theorem ofString_ofList (s : List Char) :
    ofString (String.ofList s) = s.flatMap String.utf8EncodeChar := by
  simp [ofString, List.utf8Encode]

theorem ofString_ascii {b : Bytes} (h : ∀ c ∈ b, c < 0x80) :
    ofString (String.ofList (b.map fun c => Char.ofNat c.toNat)) = b := by
  have byte : ∀ n < 0x80, String.utf8EncodeChar (Char.ofNat n) = [UInt8.ofNat n] := by decide
  rw [ofString_ofList]
  induction b with
  | nil => rfl
  | cons c b ih =>
    obtain ⟨hc, hb⟩ := List.forall_mem_cons.1 h
    simp [byte c.toNat hc, ih hb]

theorem ofString_of_toString? {b : Bytes} {s : String} (h : toString? b = some s) :
    ofString s = b := by
  simp only [toString?, String.fromUTF8?] at h
  split at h
  · cases h
    rfl
  · cases h

end Bytes

end Strongbox
