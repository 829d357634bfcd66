import Strongbox.Proofs.Bytes
import Strongbox.Text.Hex

/-!
# Hexadecimal read back

A string of digits names some bytes if it is their written form, but for the case of its letters. A
text names some bytes if nothing stands in it but such digits and blanks around them.
-/

namespace Strongbox.Hex

open Bytes (forall_byte)

variable {b d : Bytes} {position : Nat}

/-! ## Digits -/

def lower (x : UInt8) : UInt8 := if 0x41 ≤ x ∧ x ≤ 0x46 then x + 0x20 else x

/-- A digit has the value of which it is the written form. -/
theorem digitValue?_eq_some_iff {x v : UInt8} :
    digitValue? x = some v ↔ v < 16 ∧ lower x = digit v := by
  constructor
  · have all : ∀ x : UInt8, ∀ v ∈ digitValue? x, v < 16 ∧ lower x = digit v :=
      fun x => forall_byte (by decide +kernel) x
    exact fun h => all x v h
  · have all (x : UInt8) : ∀ k : Fin 16, lower x = digit (.ofNat k) →
        digitValue? x = some (.ofNat k) := forall_byte (by decide +kernel) x
    rintro ⟨small, h⟩
    have := all x ⟨v.toNat, UInt8.lt_iff_toNat_lt.1 small⟩
    simp only [UInt8.ofNat_toNat] at this
    exact this h

/-- The halves of a byte that was joined from two numbers. -/
theorem halves {high low : UInt8} (hh : high < 16) (hl : low < 16) :
    (high <<< 4 ||| low) >>> 4 = high ∧ (high <<< 4 ||| low) &&& 0xf = low := by
  have all : ∀ h l : Fin 16, (UInt8.ofNat h <<< 4 ||| .ofNat l) >>> 4 = .ofNat h ∧
      (UInt8.ofNat h <<< 4 ||| .ofNat l) &&& 0xf = .ofNat l := by decide +kernel
  have one := all ⟨high.toNat, UInt8.lt_iff_toNat_lt.1 hh⟩ ⟨low.toNat, UInt8.lt_iff_toNat_lt.1 hl⟩
  simpa only [UInt8.ofNat_toNat] using one

theorem join_halves (x : UInt8) : (x >>> 4) <<< 4 ||| (x &&& 0xf) = x :=
  forall_byte (by decide +kernel) x

theorem half_lt (x : UInt8) : x >>> 4 < 16 ∧ x &&& 0xf < 16 :=
  forall_byte (by decide +kernel) x

/-! ## Strings of digits -/

theorem decodeFrom_cons {high low : UInt8} :
    decodeFrom position (high :: low :: d) = .ok b ↔ ∃ x tail, b = x :: tail ∧
      lower high = digit (x >>> 4) ∧ lower low = digit (x &&& 0xf) ∧
      decodeFrom (position + 2) d = .ok tail := by
  have at_eq {position : Nat} {x v : UInt8} :
      digitAt position x = .ok v ↔ v < 16 ∧ lower x = digit v := by
    rw [← digitValue?_eq_some_iff, digitAt]
    cases digitValue? x <;> simp
  simp only [decodeFrom, bind_eq_ok_iff, at_eq]
  constructor
  · rintro ⟨h, ⟨hh, high_eq⟩, l, ⟨hl, low_eq⟩, tail, rest, hb⟩
    cases hb
    obtain ⟨first, second⟩ := halves hh hl
    exact ⟨_, tail, rfl, by rw [first, high_eq], by rw [second, low_eq], rest⟩
  · rintro ⟨x, tail, rfl, high_eq, low_eq, rest⟩
    refine ⟨_, ⟨(half_lt x).1, high_eq⟩, _, ⟨(half_lt x).2, low_eq⟩, tail, rest, ?_⟩
    rw [join_halves]
    rfl

/-- Digits name the bytes of which they are the written form, but for the case of letters. -/
theorem decodeFrom_eq_ok_iff : ∀ {d b : Bytes} {position : Nat},
    decodeFrom position d = .ok b ↔ d.map lower = encode b
  | [], [], _ => by simp [decodeFrom, encode]
  | [], _ :: _, _ => by simp [decodeFrom, encode]
  | [_], [], _ => by simp [decodeFrom, encode]
  | [_], _ :: _, _ => by simp [decodeFrom, encode]
  | _ :: _ :: _, [], _ => by simp [decodeFrom_cons, encode]
  | high :: low :: d, x :: b, position => by
    rw [decodeFrom_cons, List.map_cons, List.map_cons, encode]
    constructor
    · rintro ⟨_, _, same, first, second, rest⟩
      cases same
      rw [first, second, decodeFrom_eq_ok_iff.1 rest]
    · intro same
      obtain ⟨first, more⟩ := List.cons.inj same
      obtain ⟨second, rest⟩ := List.cons.inj more
      exact ⟨x, b, rfl, first, second, decodeFrom_eq_ok_iff.2 rest⟩

/-- Digits name the bytes of which they are the written form, but for the case of letters. -/
theorem decode_eq_ok_iff : decode d = .ok b ↔ d.map lower = encode b := by
  have named : decodeFrom 0 d = .ok b ↔ d.map lower = encode b := decodeFrom_eq_ok_iff
  rw [decode, ← named]
  split
  · next odd =>
    refine ⟨nofun, fun read => ?_⟩
    have even := congrArg List.length (named.1 read)
    rw [List.length_map, encode_length] at even
    omega
  · rfl

theorem exists_of_mem_encode {y : UInt8} (h : y ∈ encode b) : ∃ v < 16, y = digit v := by
  induction b with
  | nil => simp [encode] at h
  | cons x b ih =>
    simp only [encode, List.mem_cons] at h
    obtain rfl | rfl | h := h
    · exact ⟨_, (half_lt x).1, rfl⟩
    · exact ⟨_, (half_lt x).2, rfl⟩
    · exact ih h

/-- Digits in pairs are the written form of some bytes, but for the case of letters. -/
theorem exists_encode {n : Nat} (length : d.length = 2 * n)
    (digits : ∀ x ∈ d, (digitValue? x).isSome = true) :
    ∃ b, b.length = n ∧ d.map lower = encode b := by
  induction n generalizing d with
  | zero => exact ⟨[], rfl, by simp [List.length_eq_zero_iff.1 length, encode]⟩
  | succ n ih =>
    obtain _ | ⟨high, _ | ⟨low, d⟩⟩ := d
    · cases length
    · rw [List.length_singleton] at length
      omega
    · obtain ⟨first, more⟩ := List.forall_mem_cons.1 digits
      obtain ⟨second, rest⟩ := List.forall_mem_cons.1 more
      obtain ⟨h, high_value⟩ := Option.isSome_iff_exists.1 first
      obtain ⟨l, low_value⟩ := Option.isSome_iff_exists.1 second
      obtain ⟨hh, high_eq⟩ := digitValue?_eq_some_iff.1 high_value
      obtain ⟨hl, low_eq⟩ := digitValue?_eq_some_iff.1 low_value
      obtain ⟨tail, tail_length, tail_eq⟩ := ih (Nat.succ.inj (Nat.succ.inj length)) rest
      obtain ⟨upper, under⟩ := halves hh hl
      refine ⟨(h <<< 4 ||| l) :: tail, by rw [List.length_cons, tail_length], ?_⟩
      rw [encode, upper, under, List.map_cons, List.map_cons, high_eq, low_eq, tail_eq]

theorem exists_decode_iff {n : Nat} : (∃ b, decode d = .ok b ∧ b.length = n) ↔
    d.length = 2 * n ∧ ∀ x ∈ d, (digitValue? x).isSome = true := by
  simp only [decode_eq_ok_iff]
  constructor
  · rintro ⟨b, named, rfl⟩
    refine ⟨by rw [← encode_length, ← named, List.length_map], fun x hx => ?_⟩
    obtain ⟨v, small, value⟩ := exists_of_mem_encode (named ▸ List.mem_map_of_mem hx)
    exact Option.isSome_iff_exists.2 ⟨v, digitValue?_eq_some_iff.2 ⟨small, value⟩⟩
  · rintro ⟨length, digits⟩
    obtain ⟨b, count, named⟩ := exists_encode length digits
    exact ⟨b, named, count⟩

/-! ## Texts -/

def IsDigit (c : Char) : Prop := '0' ≤ c ∧ c ≤ '9' ∨ 'a' ≤ c ∧ c ≤ 'f' ∨ 'A' ≤ c ∧ c ≤ 'F'

instance (c : Char) : Decidable (IsDigit c) := inferInstanceAs (Decidable (_ ∨ _))

/-- Exactly the digits of `n` bytes, in either case. -/
def Spells (n : Nat) (s : List Char) : Prop := s.length = 2 * n ∧ ∀ c ∈ s, IsDigit c

instance (n : Nat) (s : List Char) : Decidable (Spells n s) :=
  decidable_of_iff (s.length = 2 * n ∧ (s.all fun c => decide (IsDigit c)) = true)
    (and_congr_right' (by simp only [List.all_eq_true, decide_eq_true_eq]))

theorem isDigit_ofNat_iff {x : UInt8} (h : x < 0x80) :
    IsDigit (Char.ofNat x.toNat) ↔ (digitValue? x).isSome = true := by
  revert h
  exact forall_byte (by decide +kernel) x

theorem lt_of_digitValue? {x : UInt8} (h : (digitValue? x).isSome = true) : x < 0x80 := by
  revert h
  exact forall_byte (by decide +kernel) x

theorem ofNat_toNat_of_isDigit {c : Char} (digit : IsDigit c) :
    UInt8.ofNat c.toNat < 0x80 ∧ Char.ofNat (UInt8.ofNat c.toNat).toNat = c := by
  have small : c.toNat < 0x80 := by
    simp only [IsDigit, Char.le_def, UInt32.le_iff_toNat_le] at digit
    obtain ⟨-, high⟩ | ⟨-, high⟩ | ⟨-, high⟩ := digit
    all_goals exact Nat.lt_of_le_of_lt high (by decide)
  have byte : (UInt8.ofNat c.toNat).toNat = c.toNat :=
    UInt8.toNat_ofNat_of_lt' (Nat.lt_trans small (by decide))
  exact ⟨UInt8.lt_iff_toNat_lt.2 (by rw [byte]; exact small), by rw [byte, Char.ofNat_toNat]⟩

/-- A text of digits is spelled by bytes that are digits. -/
theorem exists_spelled {s : List Char} (digits : ∀ c ∈ s, IsDigit c) : ∃ d : Bytes,
    (∀ x ∈ d, (digitValue? x).isSome = true) ∧ d.map (fun x => Char.ofNat x.toNat) = s := by
  refine ⟨s.map fun c => UInt8.ofNat c.toNat, List.forall_mem_map.2 fun c hc => ?_, ?_⟩
  · obtain ⟨small, own⟩ := ofNat_toNat_of_isDigit (digits c hc)
    rw [← isDigit_ofNat_iff small, own]
    exact digits c hc
  · rw [List.map_map]
    exact (List.map_congr_left fun c hc => (ofNat_toNat_of_isDigit (digits c hc)).2).trans
      (List.map_id s)

/-- The bytes of a text are digits if its characters are, and then it has as many of them. -/
theorem digits_ofString_iff {s : List Char} {n : Nat} :
    ((Bytes.ofString (String.ofList s)).length = n ∧
      ∀ x ∈ Bytes.ofString (String.ofList s), (digitValue? x).isSome = true) ↔
    s.length = n ∧ ∀ c ∈ s, IsDigit c := by
  constructor
  · rintro ⟨length, digits⟩
    have ascii : ∀ x ∈ Bytes.ofString (String.ofList s), x < 0x80 :=
      fun x hx => lt_of_digitValue? (digits x hx)
    have spelled := Bytes.ofString_inj.1 (Bytes.ofString_spelled ascii)
    generalize Bytes.ofString (String.ofList s) = d at length digits ascii spelled
    obtain rfl : d.map (fun x => Char.ofNat x.toNat) = s := String.ofList_injective spelled
    refine ⟨by rw [List.length_map, length], List.forall_mem_map.2 fun x hx => ?_⟩
    exact (isDigit_ofNat_iff (ascii x hx)).2 (digits x hx)
  · rintro ⟨rfl, digits⟩
    obtain ⟨d, values, rfl⟩ := exists_spelled digits
    rw [Bytes.ofString_ascii fun x hx => lt_of_digitValue? (values x hx), List.length_map]
    exact ⟨rfl, values⟩

/-- A text names the bytes that are written between its blanks, if they are as many as wanted. -/
theorem parse_eq_ok_iff {n : Nat} {text : String} : parse n text = .ok b ↔
    decode (Bytes.ofString (String.ofList (Text.trim text.toList))) = .ok b ∧ b.length = n := by
  rw [parse, bind_eq_ok_iff]
  constructor
  · rintro ⟨found, read, counted⟩
    split at counted
    · next count =>
      cases counted
      exact ⟨read, count⟩
    · cases counted
  · rintro ⟨read, count⟩
    exact ⟨b, read, if_pos count⟩

/-- A text names some bytes if, without the blanks around it, it is made of digits in pairs. -/
theorem exists_parse_iff {n : Nat} {text : String} :
    (∃ b, parse n text = .ok b) ↔ Spells n (Text.trim text.toList) := by
  rw [Spells, ← digits_ofString_iff, ← exists_decode_iff]
  exact exists_congr fun b => parse_eq_ok_iff

/-- A text that names no bytes is the fault of the settings, whatever is wrong with it. -/
theorem exists_failure_of_unread {n : Nat} {text : String} (unread : ¬ ∃ b, parse n text = .ok b) :
    ∃ reason, (parse n text).mapError Fault.failure = .error (.config reason) := by
  cases read : parse n text with
  | ok b => exact absurd ⟨b, read⟩ unread
  | error fault => cases fault <;> exact ⟨_, rfl⟩

end Strongbox.Hex
