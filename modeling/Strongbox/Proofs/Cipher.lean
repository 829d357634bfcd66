import Strongbox.Cipher
import Strongbox.Download.Frames
import Strongbox.Piece

/-!
# Opening what was sealed
-/

namespace Strongbox

theorem Sealing.open?_close {key nonce text : Bytes} (h : Sealing.fits text = true) :
    Sealing.open? key nonce (Sealing.close key nonce text) = some text := by
  have length_eq := Sealing.close_length key nonce text
  have body : (Sealing.close key nonce text).take text.length = Sealing.crypt key nonce text := by
    rw [Sealing.close, List.take_append_of_le_length (by simp)]
    simp [List.take_of_length_le]
  have tag : (Sealing.close key nonce text).drop text.length =
      Sealing.authenticator key nonce (Sealing.crypt key nonce text) := by
    rw [Sealing.close]
    exact List.drop_left' (by simp)
  have fits : Sealing.fits (Sealing.crypt key nonce text) = true := by
    simpa [Sealing.fits] using h
  unfold Sealing.open?
  rw [if_neg (by omega), length_eq, Nat.add_sub_cancel, body, tag]
  simp [fits, Sealing.crypt_crypt]

namespace Key

variable {k : Key} {iv : Nonce} {plain : Bytes} {c : Sealed}

theorem sealWith_eq_ok (h : Sealing.fits plain = true) :
    k.sealWith iv.bytes plain =
      .ok ⟨Sealing.close k.bytes iv.bytes plain, algorithmName, iv.bytes⟩ := by
  rw [sealWith, if_pos h]

theorem algorithm_sealWith (h : k.sealWith iv.bytes plain = .ok c) :
    c.algorithm = algorithmName := by
  unfold sealWith at h
  split at h <;> cases h
  rfl

theorem openWith_sealWith (h : k.sealWith iv.bytes plain = .ok c) :
    k.openWith c.iv c.ciphertext = .ok plain := by
  unfold sealWith at h
  split at h <;> cases h
  rename_i fits
  simp [openWith, iv.length_eq, Sealing.open?_close fits]

end Key

/-- The piece that a stored chunk holds, if it opens. -/
def Chunk.piece? (key : Key) (c : Chunk) : Option Piece :=
  if c.algorithm = algorithmName then
    (key.openWith c.iv c.ciphertext).toOption.map fun data => ⟨c.index, data⟩
  else none

theorem Chunk.piece?_eq_some_iff {key : Key} {c : Chunk} {t : Piece} :
    c.piece? key = some t ↔ t.index = c.index ∧ c.algorithm = algorithmName ∧
      key.openWith c.iv c.ciphertext = .ok t.data := by
  unfold piece?
  by_cases known : c.algorithm = algorithmName
  · rw [if_pos known]
    cases hopen : key.openWith c.iv c.ciphertext with
    | error f => simp [Except.toOption]
    | ok data =>
      cases t
      simp [Except.toOption, known, eq_comm]
  · simp [known]

theorem Chunk.index_piece? {key : Key} {c : Chunk} {t : Piece} (h : c.piece? key = some t) :
    t.index = c.index := (piece?_eq_some_iff.1 h).1

theorem Download.openChunk_of_piece? {key : Key} {c : Chunk} {t : Piece} (total : Nat)
    (h : c.piece? key = some t) :
    Download.openChunk key total c =
      .ok ⟨t.data, Int32.ofNat t.index, 0 < total && t.index == total - 1⟩ := by
  obtain ⟨index_eq, known, hopen⟩ := Chunk.piece?_eq_some_iff.1 h
  simp [openChunk, known, hopen, index_eq]

end Strongbox
