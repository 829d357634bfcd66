import Strongbox.Proofs.Upload.Exact
import Strongbox.Receiving.Announcement

/-!
# What the frames of a received file must be
-/

namespace Strongbox.Receiving

open Message

theorem natural_eq_ok_iff {what : String} {i : Int} {n : Nat} :
    natural what i = .ok n ↔ (n : Int) = i := by
  unfold natural
  split
  · simp only [reduceCtorEq, false_iff]
    omega
  · rw [Except.ok.injEq]
    omega

theorem ofMetadata_eq_ok_iff {m : Metadata} {a : Announcement} :
    Announcement.ofMetadata m = .ok a ↔
      a.metadata = m ∧ Upload.Announces m a.plan ∧ Name.safe m.filename = .ok a.name := by
  simp only [Announcement.ofMetadata, bind_eq_ok_iff, natural_eq_ok_iff, mapError_eq_ok_iff,
    Plan.declared_eq_ok_iff]
  constructor
  · rintro ⟨size, size_eq, total, total_eq, chunkSize, chunkSize_eq, plan, ⟨rfl, rfl, rfl⟩, name,
      safe, h⟩
    cases h
    exact ⟨rfl, ⟨size_eq, chunkSize_eq, total_eq⟩, safe⟩
  · rintro ⟨rfl, announced, safe⟩
    exact ⟨_, announced.size_eq, _, announced.total_eq, _, announced.chunkSize_eq, _,
      ⟨rfl, rfl, rfl⟩, _, safe, rfl⟩

theorem announcement_eq_ok_iff {item : Option Item} {a : Announcement} :
    announcement item = .ok a ↔
      item = some (.ok (.metadata a.metadata)) ∧ Upload.Announces a.metadata a.plan ∧
        Name.safe a.metadata.filename = .ok a.name := by
  constructor
  · intro h
    unfold announcement at h
    split at h
    · cases h
    · cases h
    · obtain ⟨rfl, announced, safe⟩ := ofMetadata_eq_ok_iff.1 h
      exact ⟨rfl, announced, safe⟩
    · cases h
  · rintro ⟨rfl, announced, safe⟩
    exact ofMetadata_eq_ok_iff.2 ⟨rfl, announced, safe⟩

theorem piece_eq_ok_iff {plan : Plan} {seen : List Nat} {item : Item} {p : Piece} :
    piece plan seen item = .ok p ↔ Upload.piece plan item = .ok p ∧ p.index ∉ seen := by
  unfold piece
  split
  · simp [Upload.piece]
  · rename_i c
    rw [bind_eq_ok_iff]
    constructor
    · rintro ⟨t, ht, h⟩
      split at h
      · cases h
      · cases h
        exact ⟨ht, ‹_›⟩
    · rintro ⟨ht, unseen⟩
      exact ⟨p, ht, if_neg unseen⟩
  · rename_i other
    simp only [reduceCtorEq, false_iff, not_and]
    intro h
    obtain ⟨c, heq, -⟩ := Upload.piece_eq_ok_iff.1 h
    exact absurd (Except.ok.inj heq) (other c)

end Strongbox.Receiving
