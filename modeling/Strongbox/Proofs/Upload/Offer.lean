import Strongbox.Proofs.Plan
import Strongbox.Upload.Offer

/-!
# What the frames of an upload must be
-/

namespace Strongbox.Upload

open Message

def draftOf (m : Metadata) : Draft where
  filename := m.filename
  mimeType := m.mimeType
  originalSize := m.originalSize.toInt.toNat
  description := m.description
  chunkSize := m.chunkSize.toInt.toNat
  totalChunks := m.totalChunks.toInt.toNat
  labels := m.labels.map fun l => (l.name, l.value)

/-- The plan is the one that a metadata frame announces: the numbers of the frame are positive where
they must be, and the chunks are counted correctly. -/
structure Announces (m : Metadata) (p : Plan) : Prop where
  size_eq : (p.size : Int) = m.originalSize.toInt
  chunkSize_eq : (p.chunkSize : Int) = m.chunkSize.toInt
  total_eq : (p.total : Int) = m.totalChunks.toInt

theorem ofMetadata_eq_ok_iff {m : Metadata} {o : Offer} :
    Offer.ofMetadata m = .ok o ↔ Announces m o.plan ∧ o.draft = draftOf m := by
  constructor
  · intro h
    unfold Offer.ofMetadata at h
    by_cases hc : m.chunkSize.toInt ≤ 0
    · rw [if_pos hc] at h
      cases h
    by_cases hn : m.totalChunks.toInt < 0 ∨ m.originalSize.toInt < 0
    · rw [if_neg hc, if_pos hn] at h
      cases h
    rw [if_neg hc, if_neg hn] at h
    cases hd : Plan.declared m.originalSize.toInt.toNat m.chunkSize.toInt.toNat
        m.totalChunks.toInt.toNat with
    | error f =>
      simp only [hd] at h
      cases h
    | ok plan =>
      simp only [hd] at h
      cases h
      obtain ⟨hsize, hchunk, htotal⟩ := Plan.declared_eq_ok_iff.1 hd
      have announced : Announces m plan := ⟨by omega, by omega, by omega⟩
      exact ⟨announced, rfl⟩
  · rintro ⟨⟨hsize, hchunk, htotal⟩, hdraft⟩
    have hpos := o.plan.chunkSize_pos
    have hd : Plan.declared m.originalSize.toInt.toNat m.chunkSize.toInt.toNat
        m.totalChunks.toInt.toNat = .ok o.plan :=
      Plan.declared_eq_ok_iff.2 ⟨by omega, by omega, by omega⟩
    unfold Offer.ofMetadata
    rw [if_neg (by omega), if_neg (by omega)]
    simp only [hd]
    show Except.ok (Offer.mk (draftOf m) o.plan) = _
    rw [← hdraft]

theorem offer_eq_ok_iff {item : Option Item} {o : Offer} :
    offer item = .ok o ↔
      ∃ m, item = some (.ok (.metadata m)) ∧ Announces m o.plan ∧ o.draft = draftOf m := by
  constructor
  · intro h
    unfold offer at h
    split at h
    · cases h
    · cases h
    · exact ⟨_, rfl, ofMetadata_eq_ok_iff.1 h⟩
    · cases h
  · rintro ⟨m, rfl, h⟩
    exact ofMetadata_eq_ok_iff.2 h

theorem piece_eq_ok_iff {plan : Plan} {item : Item} {t : Piece} :
    piece plan item = .ok t ↔ ∃ c, item = .ok (.chunk c) ∧ plan.piece c = .ok t := by
  constructor
  · intro h
    unfold piece at h
    split at h
    · cases h
    · cases h
    · cases h
    · exact ⟨_, rfl, h⟩
  · rintro ⟨c, rfl, h⟩
    exact h

/-! ## The numbers of an offer -/

/-- The numbers of an offer fit the words that they came in, and its draft has the same ones. -/
structure Offer.IsSound (o : Offer) : Prop where
  originalSize_eq : o.draft.originalSize = o.plan.size
  chunkSize_eq : o.draft.chunkSize = o.plan.chunkSize
  totalChunks_eq : o.draft.totalChunks = o.plan.total
  size_le : o.plan.size ≤ Word.maxInt64
  chunkSize_le : o.plan.chunkSize ≤ Word.maxInt32

theorem isSound_of_offer {item : Option Item} {o : Offer} (h : offer item = .ok o) : o.IsSound := by
  obtain ⟨m, rfl, ⟨hsize, hchunk, htotal⟩, hdraft⟩ := offer_eq_ok_iff.1 h
  have hs := m.originalSize.toInt_lt
  have hc := m.chunkSize.toInt_lt
  constructor
  · rw [hdraft]
    simp only [draftOf]
    omega
  · rw [hdraft]
    simp only [draftOf]
    omega
  · rw [hdraft]
    simp only [draftOf]
    omega
  · simp only [Word.maxInt64]
    omega
  · simp only [Word.maxInt32]
    omega

end Strongbox.Upload
