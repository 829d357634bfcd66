import Strongbox.Bytes

/-!
# Bytes one by one

A fact about bytes may be tried on all of them, and a string of bytes may be spelled as a text with
one character for each byte.
-/

namespace Strongbox.Bytes

variable {b : Bytes}

/-- What holds of every string of eight bits holds of every byte. -/
@[elab_as_elim]
theorem forall_byte {p : UInt8 → Prop} (h : ∀ v : BitVec 8, p (.ofBitVec v)) (b : UInt8) : p b :=
  h b.toBitVec

def spelled (b : Bytes) : String := String.ofList (b.map fun c => Char.ofNat c.toNat)

theorem spelled_append (a b : Bytes) : spelled (a ++ b) = spelled a ++ spelled b := by
  rw [spelled, List.map_append, String.ofList_append]
  rfl

theorem ofString_spelled (h : ∀ c ∈ b, c < 0x80) : ofString (spelled b) = b := ofString_ascii h

theorem ofString_inj {s t : String} : ofString s = ofString t ↔ s = t := by
  refine ⟨fun same => ?_, congrArg ofString⟩
  have read := congrArg toString? same
  rwa [toString?_ofString, toString?_ofString, Option.some_inj] at read

end Strongbox.Bytes
