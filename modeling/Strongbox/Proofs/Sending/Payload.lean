import Strongbox.Proofs.Pieces
import Strongbox.Proofs.Upload.Exact
import Strongbox.Proofs.Word
import Strongbox.Sending

/-!
# The frames of a payload
-/

namespace Strongbox.Sending

open Message

variable {plan q : Plan} {payload : Bytes} {o : Offering} {i : Nat} {c : Message.Chunk}

theorem cut?_eq_some_iff :
    cut? payload plan i = some c ↔
      i < plan.total ∧ c = ⟨plan.slice payload i, Int32.ofNat i, plan.isLast i⟩ := by
  by_cases h : i < plan.total
  · have length_eq : Span.length ⟨i * plan.chunkSize,
        min (i * plan.chunkSize + plan.chunkSize) plan.size⟩ = plan.spanLength i := by
      rw [Plan.spanLength, Plan.span?_of_lt h]
      rfl
    rw [cut?, Plan.span?_of_lt h, Option.map_some, length_eq]
    simp only [Option.some.injEq, h, true_and, Plan.slice, chunkOffset, eq_comm]
  · simp [cut?, Plan.span?, h]

theorem size_lt (h : plan.chunkSize < Word.count32) : plan.size < Word.count64 := by
  have few : plan.total < Word.count32 := plan.total_lt
  calc plan.size ≤ plan.total * plan.chunkSize := plan.size_le
    _ ≤ plan.total * Word.count32 := Nat.mul_le_mul_left _ (Nat.le_of_lt h)
    _ < Word.count32 * Word.count32 := Nat.mul_lt_mul_of_pos_right few (by decide)
    _ = Word.count64 := by decide

/-- The numbers of a plan are sent as they are. -/
structure Fits (plan : Plan) : Prop where
  size_le : plan.size ≤ Word.maxInt64
  chunkSize_le : plan.chunkSize ≤ Word.maxInt32
  total_le : plan.total ≤ Word.maxInt32

/-- A plan that metadata announce has numbers that can be sent. -/
theorem fits_of_announces {m : Metadata} (announced : Upload.Announces m q) : Fits q := by
  have size_lt := m.originalSize.toInt_lt
  have chunkSize_lt := m.chunkSize.toInt_lt
  have total_lt := m.totalChunks.toInt_lt
  obtain ⟨size_eq, chunkSize_eq, total_eq⟩ := announced
  constructor
  · simp only [Word.maxInt64]
    omega
  · simp only [Word.maxInt32]
    omega
  · simp only [Word.maxInt32]
    omega

/-- The metadata of a payload announce no plan but the one that cuts it. -/
theorem plan_of_announces (h : plan.chunkSize < Word.count32)
    (announced : Upload.Announces (metadata plan o) q) : q = plan ∧ Fits plan := by
  obtain ⟨size_eq, size_le⟩ := Word.of_toInt64 (size_lt h) announced.size_eq
  obtain ⟨chunkSize_eq, chunkSize_le⟩ := Word.of_toInt32 h announced.chunkSize_eq
  obtain ⟨-, total_le⟩ := Word.of_toInt32 plan.total_lt announced.total_eq
  refine ⟨?_, size_le, chunkSize_le, total_le⟩
  cases q
  cases plan
  cases size_eq
  cases chunkSize_eq
  rfl

/-- A frame that a sender cuts brings a piece of the plan. -/
theorem piece_of_cut? (size_eq : plan.size = payload.length) (total_le : plan.total ≤ Word.maxInt32)
    (h : cut? payload plan i = some c) :
    plan.piece c = .ok ⟨i, plan.slice payload i⟩ ∧ c.index.toInt.toNat = i := by
  obtain ⟨lt, rfl⟩ := cut?_eq_some_iff.1 h
  have index_eq := Word.toInt_ofNat32 (Nat.le_trans (Nat.le_of_lt lt) total_le)
  have piece := Plan.piece_eq_ok_iff (p := plan) (t := ⟨i, plan.slice payload i⟩)
    (c := ⟨plan.slice payload i, Int32.ofNat i, plan.isLast i⟩)
  rw [index_eq, Int.toNat_natCast] at piece
  exact ⟨piece.2 ⟨Int.natCast_nonneg i, rfl, lt, Plan.length_slice size_eq lt⟩,
    congrArg Int.toNat index_eq⟩

/-- The frames that a sender cuts bring chunks of the payload. -/
theorem cuts_of_cut {frames : List Message.Chunk} (total_le : plan.total ≤ Word.maxInt32)
    (cut : ∀ c ∈ frames, ∃ i, cut? payload plan i = some c) :
    plan.Cuts payload (frames.map Upload.pieceOf) := by
  intro t ht
  obtain ⟨c, hc, rfl⟩ := List.mem_map.1 ht
  obtain ⟨i, hi⟩ := cut c hc
  obtain ⟨lt, rfl⟩ := cut?_eq_some_iff.1 hi
  have index_eq : (Int32.ofNat i).toInt.toNat = i :=
    Word.toNat_ofNat32 (Nat.le_trans (Nat.le_of_lt lt) total_le)
  show (Int32.ofNat i).toInt.toNat < plan.total ∧
    plan.slice payload i = plan.slice payload (Int32.ofNat i).toInt.toNat
  exact index_eq.symm ▸ ⟨lt, rfl⟩

/-- A stream that is accepted brings all chunks of the payload. -/
theorem pieces_of_passed {frames : List Message.Chunk} {accepted : Upload.Offer} {ps : List Piece}
    (small : plan.chunkSize < Word.count32) (cut : ∀ c ∈ frames, ∃ i, cut? payload plan i = some c)
    (passed : Upload.Passed (.ok (.metadata (metadata plan o)) :: Upload.itemsOf frames)
      accepted ps) :
    accepted = ⟨Upload.draftOf (metadata plan o), plan⟩ ∧ Fits plan ∧
      ps.Perm (plan.pieces payload) := by
  obtain ⟨m, frames', exact, rfl⟩ := passed.exact
  obtain ⟨item_eq, frames_eq⟩ := List.cons.inj exact.stream
  cases item_eq
  cases Upload.itemsOf_inj frames_eq
  obtain ⟨plan_eq, fits⟩ := plan_of_announces small exact.announced
  have same : accepted = ⟨Upload.draftOf (metadata plan o), plan⟩ := by
    have offered := exact.sends.offered
    rw [passed.offered, plan_eq] at offered
    exact Except.ok.inj offered
  have all := passed.all
  rw [plan_eq] at all
  exact ⟨same, fits, (cuts_of_cut fits.total_le cut).perm all⟩

end Strongbox.Sending
