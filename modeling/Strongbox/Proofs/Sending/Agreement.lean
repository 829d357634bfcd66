import Strongbox.Client
import Strongbox.Proofs.Sending.Payload

/-!
# Where both ends of an upload see one plan

The sender counts in words without a sign and sends signed ones, so a chunk size or a count beyond
the greatest signed word arrives as a negative number. Nothing else is lost on the way.

## Main definitions

* `Sending.draft`: the file that a payload is kept as.

## Main statements

* `Sending.fits_iff`: which numbers of a plan are sent as they are.
* `Sending.offer_of_metadata`: what is made of the announcement of a payload.
* `Sending.agrees_within_words`: both ends see one plan within signed words, and only there.
-/

namespace Strongbox

theorem Client.chunkSize_of_connect {listens : String → Bool} {opts : Options} {c : Client}
    (h : connect listens opts = .ok c) : c.chunkSize = opts.chunkSize := by
  simp only [connect, bind, Except.bind, pure, Except.pure, throw, throwThe, MonadExceptOf.throw]
    at h
  split at h
  · cases h
  split at h
  · cases h
  split at h
  · cases h
  split at h
  · cases h
  split at h <;> cases h
  rfl

namespace Sending

open Message

variable {plan : Plan} {payload : Bytes} {o : Offering} {i : Nat} {c : Message.Chunk}

/-- The file that a payload is kept as, by what is said about it and how it is cut. -/
def draft (plan : Plan) (o : Offering) : Draft where
  filename := o.filename
  mimeType := o.mimeType
  originalSize := plan.size
  description := o.description
  chunkSize := plan.chunkSize
  totalChunks := plan.total
  labels := o.labels

/-- Chunks are so few and so small that the size is sent as it is if the other numbers are. -/
theorem fits_iff :
    Fits plan ↔ plan.chunkSize ≤ Word.maxInt32 ∧ plan.total ≤ Word.maxInt32 := by
  refine ⟨fun fits => ⟨fits.chunkSize_le, fits.total_le⟩, fun ⟨chunkSize_le, total_le⟩ => ?_⟩
  have size_le : plan.size ≤ Word.maxInt64 :=
    calc plan.size ≤ plan.total * plan.chunkSize := plan.size_le
      _ ≤ Word.maxInt32 * Word.maxInt32 := Nat.mul_le_mul total_le chunkSize_le
      _ ≤ Word.maxInt64 := by decide
  exact ⟨size_le, chunkSize_le, total_le⟩

theorem draftOf_metadata (fits : Fits plan) : Upload.draftOf (metadata plan o) = draft plan o := by
  have size_eq : (Int64.ofNat plan.size).toInt.toNat = plan.size := by
    rw [Word.toInt_ofNat64 fits.size_le, Int.toNat_natCast]
  have chunkSize_eq := Word.toNat_ofNat32 fits.chunkSize_le
  have total_eq := Word.toNat_ofNat32 fits.total_le
  simp only [Upload.draftOf, metadata, draft, size_eq, chunkSize_eq, total_eq, List.map_map,
    Function.comp_def, List.map_id']

theorem announces_plan (fits : Fits plan) : Upload.Announces (metadata plan o) plan where
  size_eq := (Word.toInt_ofNat64 fits.size_le).symm
  chunkSize_eq := (Word.toInt_ofNat32 fits.chunkSize_le).symm
  total_eq := (Word.toInt_ofNat32 fits.total_le).symm

/-- The announcement of a payload is taken as it was meant if its numbers fit signed words, and
refused otherwise. -/
theorem offer_of_metadata (small : plan.chunkSize < Word.count32) :
    Upload.Offer.ofMetadata (metadata plan o) =
      if Word.maxInt32 < plan.chunkSize then .error (.protocol "chunk size must be positive")
      else if Word.maxInt32 < plan.total then .error (.protocol "negative size in metadata")
      else .ok ⟨draft plan o, plan⟩ := by
  by_cases large : Word.maxInt32 < plan.chunkSize
  · rw [if_pos large]
    have negative : (metadata plan o).chunkSize.toInt ≤ 0 := by
      simp only [metadata, Word.toInt_ofNat32_of_gt large small]
      omega
    simp only [Upload.Offer.ofMetadata, if_pos negative]
    rfl
  by_cases many : Word.maxInt32 < plan.total
  · rw [if_neg large, if_pos many]
    have positive : ¬(metadata plan o).chunkSize.toInt ≤ 0 := by
      have := plan.chunkSize_pos
      simp only [metadata, Word.toInt_ofNat32 (Nat.le_of_not_lt large)]
      omega
    have negative : (metadata plan o).totalChunks.toInt < 0 := by
      have : plan.total < Word.count32 := plan.total_lt
      simp only [metadata, Word.toInt_ofNat32_of_gt many this]
      omega
    simp only [Upload.Offer.ofMetadata, if_neg positive, if_pos (Or.inl negative)]
    rfl
  · rw [if_neg large, if_neg many]
    have fits : Fits plan := fits_iff.2 ⟨Nat.le_of_not_lt large, Nat.le_of_not_lt many⟩
    exact Upload.ofMetadata_eq_ok_iff.2 ⟨announces_plan fits, (draftOf_metadata fits).symm⟩

/-- A chunk that is cut is one of the plan for the other end too, if its index fits a signed word;
otherwise it is none of any plan. -/
theorem piece_of_cut (size_eq : plan.size = payload.length) (h : cut? payload plan i = some c) :
    plan.piece c =
      if i ≤ Word.maxInt32 then .ok ⟨i, plan.slice payload i⟩
      else .error (Plan.Fault.outside (i - (Word.count32 : Nat)) plan.total).failure := by
  obtain ⟨lt, rfl⟩ := cut?_eq_some_iff.1 h
  have lt32 : i < Word.count32 := Nat.lt_trans lt plan.total_lt
  split
  · rename_i small
    have index_eq := Word.toInt_ofNat32 small
    refine Plan.piece_eq_ok_iff.2 ⟨?_, ?_, lt, Plan.length_slice size_eq lt⟩
    · rw [index_eq]
      exact Int.natCast_nonneg i
    · rw [index_eq, Int.toNat_natCast]
  · rename_i great
    have index_eq := Word.toInt_ofNat32_of_gt (Nat.lt_of_not_le great) lt32
    have negative : (i : Int) - (Word.count32 : Nat) < 0 := by omega
    simp only [Plan.piece, index_eq, if_pos negative]

/-- Within signed words, both ends of an upload see one plan. The announcement of a payload is taken
with the size, chunk size and count that the sender counted with, unless the chunk size or the count
is greater than a signed word: then it is refused, whatever the payload. Each chunk of the plan is
cut, and arrives as the chunk with its index, unless the index is greater than a signed word. -/
theorem agrees_within_words {listens : String → Bool} {opts : Client.Options} {client : Client}
    (word : opts.chunkSize < Word.count32) (connected : Client.connect listens opts = .ok client)
    (planned : Plan.make payload.length client.chunkSize = .ok plan) (schedule : Schedule Move) :
    Upload.offer (stream schedule plan payload client.poolSize o).head? =
      (if Word.maxInt32 < opts.chunkSize then .error (.protocol "chunk size must be positive")
       else if Word.maxInt32 < plan.total then .error (.protocol "negative size in metadata")
       else .ok ⟨draft plan o, plan⟩) ∧
    plan.size = payload.length ∧ plan.chunkSize = opts.chunkSize ∧
    ∀ i < plan.total, ∃ frame, cut? payload plan i = some frame ∧
      plan.piece frame =
        if i ≤ Word.maxInt32 then .ok ⟨i, plan.slice payload i⟩
        else .error (Plan.Fault.outside (i - (Word.count32 : Nat)) plan.total).failure := by
  obtain ⟨size_eq, chunkSize_eq⟩ := Plan.make_eq_ok_iff.1 planned
  rw [Client.chunkSize_of_connect connected] at chunkSize_eq
  refine ⟨?_, size_eq, chunkSize_eq, fun i lt => ?_⟩
  · rw [← chunkSize_eq] at word ⊢
    exact offer_of_metadata word
  · have cut : cut? payload plan i = some ⟨plan.slice payload i, Int32.ofNat i, plan.isLast i⟩ :=
      cut?_eq_some_iff.2 ⟨lt, rfl⟩
    exact ⟨_, cut, piece_of_cut size_eq cut⟩

/-- One byte in chunks of one byte is announced as it is. An empty payload in chunks that are one
byte larger than a signed word tells is refused. -/
theorem agrees_within_words_of_two_sizes :
    let listens : String → Bool := fun _ => true
    let opts (chunkSize : Nat) : Client.Options :=
      { endpoint := "http://localhost:50051", token := "t", chunkSize := chunkSize }
    let o : Offering := { filename := "a", mimeType := "text/plain" }
    (∃ client plan, Client.connect listens (opts 1) = .ok client ∧
      Plan.make 1 client.chunkSize = .ok plan ∧
      Upload.offer (stream readerFirst plan [7] client.poolSize o).head? =
        .ok ⟨draft plan o, plan⟩) ∧
    ∃ client plan, Client.connect listens (opts 0x80000000) = .ok client ∧
      Plan.make 0 client.chunkSize = .ok plan ∧
      Upload.offer (stream readerFirst plan [] client.poolSize o).head? =
        .error (.protocol "chunk size must be positive") := by
  intro listens opts o
  have connects : ∀ n ∈ [1, 0x80000000],
      ∃ client, Client.connect listens (opts n) = .ok client := by
    intro n hn
    have accepted : ∀ n ∈ [1, 0x80000000], (Client.connect listens (opts n)).isOk = true := by
      decide +kernel
    specialize accepted n hn
    cases connected : Client.connect listens (opts n) with
    | ok client => exact ⟨client, rfl⟩
    | error f =>
      rw [connected] at accepted
      cases accepted
  constructor
  · obtain ⟨client, connected⟩ := connects 1 (by simp)
    let plan : Plan := ⟨1, 1, by decide, by decide⟩
    have planned : Plan.make ([7] : Bytes).length client.chunkSize = .ok plan :=
      Plan.make_eq_ok_iff.2 ⟨rfl, (Client.chunkSize_of_connect connected).symm⟩
    have few : ¬Word.maxInt32 < plan.total := by
      show ¬Word.maxInt32 < chunkCount 1 1
      decide
    have offered := (agrees_within_words (o := o) (by decide) connected planned readerFirst).1
    rw [if_neg (by decide), if_neg few] at offered
    exact ⟨client, plan, connected, planned, offered⟩
  · obtain ⟨client, connected⟩ := connects 0x80000000 (by simp)
    let plan : Plan := ⟨0, 0x80000000, by decide, by decide⟩
    have planned : Plan.make ([] : Bytes).length client.chunkSize = .ok plan :=
      Plan.make_eq_ok_iff.2 ⟨rfl, (Client.chunkSize_of_connect connected).symm⟩
    have offered := (agrees_within_words (o := o) (by decide) connected planned readerFirst).1
    rw [if_pos (by decide)] at offered
    exact ⟨client, plan, connected, planned, offered⟩

end Sending

end Strongbox
