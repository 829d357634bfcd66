import Strongbox.Proofs.Text.Blank
import Strongbox.Proofs.Text.Hex
import Strongbox.Proofs.Text.Lower

/-!
# Exactly the hexadecimal texts

The digits of a text are single bytes, and so it makes no difference whether they are counted and
lower-cased as characters or as bytes. A text that names some bytes is therefore, without the blanks
around it and in lower case, the written form of these bytes and of no others.

## Main statements

* `Hex.parse_toText`: written bytes are read back.
* `Hex.toText_eq_lower_iff`: the bytes of which digits are, in lower case, the written form.
* `Hex.reads_exactly`: which texts name some bytes, which bytes they name, and what is said of the
  other texts.
-/

namespace Strongbox.Hex

open Bytes (forall_byte)

variable {b d : Bytes} {s : List Char}

/-! ## Written bytes -/

theorem of_mem_encode {x : UInt8} (h : x ∈ encode b) :
    (digitValue? x).isSome = true ∧ lower x = x := by
  obtain ⟨v, small, rfl⟩ := exists_of_mem_encode h
  have value := digitValue?_digit v small
  exact ⟨Option.isSome_iff_exists.2 ⟨v, value⟩, (digitValue?_eq_some_iff.1 value).2⟩

theorem map_lower_encode (b : Bytes) : (encode b).map lower = encode b :=
  (List.map_congr_left fun _ hx => (of_mem_encode hx).2).trans (List.map_id _)

theorem ofString_toText (b : Bytes) : Bytes.ofString (toText b) = encode b :=
  Bytes.ofString_ascii fun _ hx => lt_of_digitValue? (of_mem_encode hx).1

/-- No digit is a blank, so written bytes are left as they are. -/
theorem trim_toText (b : Bytes) : Text.trim (toText b).toList = (toText b).toList := by
  have solid : ∀ x : UInt8, (digitValue? x).isSome = true →
      Text.isBlank (Char.ofNat x.toNat) = false := fun x => forall_byte (by decide +kernel) x
  rw [toText, String.toList_ofList]
  exact Text.trim_of_solid (List.forall_mem_map.2 fun x hx => solid x (of_mem_encode hx).1)

theorem parse_toText (b : Bytes) : parse b.length (toText b) = .ok b := by
  refine parse_eq_ok_iff.2 ⟨?_, rfl⟩
  rw [trim_toText, String.ofList_toList, ofString_toText, decode_eq_ok_iff, map_lower_encode]

/-! ## Lower case -/

theorem lower_lt {x : UInt8} (h : (digitValue? x).isSome = true) : lower x < 0x80 := by
  revert h
  exact forall_byte (by decide +kernel) x

theorem lower_spelled (digits : ∀ x ∈ d, (digitValue? x).isSome = true) :
    Text.lower (d.map fun x => Char.ofNat x.toNat) =
      (d.map lower).map fun x => Char.ofNat x.toNat := by
  have same : ∀ x : UInt8, (digitValue? x).isSome = true → (Char.ofNat x.toNat).toNat < 128 ∧
      (Char.ofNat x.toNat).toLower = Char.ofNat (lower x).toNat :=
    fun x => forall_byte (by decide +kernel) x
  have ascii : ∀ c ∈ d.map fun x => Char.ofNat x.toNat, c.toNat < 128 :=
    List.forall_mem_map.2 fun x hx => (same x (digits x hx)).1
  rw [Text.lower_of_ascii ascii, Text.lowerAscii, List.map_map, List.map_map]
  exact List.map_congr_left fun x hx => (same x (digits x hx)).2

/-- Digits name the bytes of which they are, in lower case, the written form. -/
theorem toText_eq_lower_iff (digits : ∀ c ∈ s, IsDigit c) :
    toText b = String.ofList (Text.lower s) ↔
      decode (Bytes.ofString (String.ofList s)) = .ok b := by
  obtain ⟨d, values, rfl⟩ := exists_spelled digits
  have ascii : ∀ x ∈ d, x < 0x80 := fun x hx => lt_of_digitValue? (values x hx)
  have small : ∀ x ∈ d.map lower, x < 0x80 :=
    List.forall_mem_map.2 fun x hx => lower_lt (values x hx)
  -- Both sides are texts below 128, and so they are compared as bytes.
  rw [← Bytes.ofString_inj, ofString_toText, lower_spelled values, Bytes.ofString_ascii small,
    Bytes.ofString_ascii ascii, decode_eq_ok_iff, eq_comm]

/-! ## Texts -/

/-- A text names `n` bytes exactly if what is left of it without the blanks around it is made of
`2 * n` digits of either case. Of all strings of `n` bytes it names the only one whose written form
is what is left, in lower case. Any other text is the fault of the settings. So what is written is
read back. -/
theorem reads_exactly (n : Nat) (text : String) : ∃ core, Text.IsCore text.toList core ∧
    ((∃ b, parse n text = .ok b) ↔ Spells n core) ∧
    (∀ b, parse n text = .ok b → ∀ a : Bytes,
      a.length = n ∧ toText a = String.ofList (Text.lower core) ↔ a = b) ∧
    (¬ Spells n core →
      ∃ reason, (parse n text).mapError Fault.failure = .error (.config reason)) ∧
    ∀ a : Bytes, a.length = n → parse n (toText a) = .ok a := by
  refine ⟨Text.trim text.toList, Text.isCore_trim _, exists_parse_iff, fun b read a => ?_,
    fun other => ?_, ?_⟩
  · have spelled : Spells n (Text.trim text.toList) := exists_parse_iff.1 ⟨b, read⟩
    rw [toText_eq_lower_iff spelled.2, and_comm, ← parse_eq_ok_iff, read, Except.ok.injEq, eq_comm]
  · exact exists_failure_of_unread (exists_parse_iff.not.2 other)
  · rintro a rfl
    exact parse_toText a

/-- Digits of both cases between a wide blank and the end of a line name two bytes. A letter with an
accent is as long as the digits of a byte, but is no digit. -/
theorem reads_exactly_of_mixed_case_and_accent :
    (∀ a : Bytes, a.length = 2 ∧ toText a = "dead" ↔ a = [0xde, 0xad]) ∧
      parse 2 "dead" = .ok [0xde, 0xad] ∧
      ∃ reason, (parse 1 "é").mapError Fault.failure = .error (.config reason) := by
  have read : parse 2 "\u3000dEAd\n" = .ok [0xde, 0xad] := by decide +kernel
  obtain ⟨digits, core, -, named, -, back⟩ := reads_exactly 2 "\u3000dEAd\n"
  obtain ⟨letter, other, -, -, refused, -⟩ := reads_exactly 1 "é"
  obtain rfl := Text.trim_eq_iff.2 core
  obtain rfl := Text.trim_eq_iff.2 other
  have lowered : String.ofList (Text.lower (Text.trim "\u3000dEAd\n".toList)) = "dead" := by
    decide +kernel
  have same := named _ read
  rw [lowered] at same
  exact ⟨same, back [0xde, 0xad] rfl, refused (by decide +kernel)⟩

end Strongbox.Hex
