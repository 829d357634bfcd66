import Strongbox.Proofs.Cipher
import Strongbox.Proofs.Store.Contract
import Strongbox.Proofs.Upload
import Strongbox.Proofs.Upload.Offer

/-!
# What an upload has stored
-/

namespace Strongbox.Upload

open Message Ledger

/-- The record is that of an offer, whether complete or not. -/
structure Declares (σ : Type) [Ledger σ] (r : Record) (owner : Int) (o : Offer) : Prop where
  owner_eq : r.owner = owner
  chunkSize_eq : r.chunkSize = o.plan.chunkSize
  totalChunks_eq : r.totalChunks = o.plan.total
  originalSize_eq : r.originalSize = o.plan.size
  tells : Keeps σ o.draft → r.Tells o.draft

variable {σ : Type} [Ledger σ]

/-- The record of a file is that of an offer, and the chunks of the file hold the pieces given. -/
structure Held (key : Key) (owner : Int) (o : Offer) (file : Int) (complete : Bool) (s : σ)
    (saved : List Piece) : Prop where
  record : ∃ r, record? s file = some r ∧ Declares σ r owner o ∧ r.isComplete = complete
  rows : ((Ledger.rows s file).map (Chunk.piece? key)).Perm (saved.map some)

namespace Held

variable {key : Key} {owner file : Int} {o : Offer} {complete : Bool} {s : σ} {saved : List Piece}

theorem piece_of_mem (h : Held key owner o file complete s saved) {c : Chunk}
    (hc : c ∈ Ledger.rows s file) : ∃ t ∈ saved, c.piece? key = some t := by
  obtain ⟨t, ht, heq⟩ := List.mem_map.1 (h.rows.mem_iff.1 (List.mem_map_of_mem hc))
  exact ⟨t, ht, heq.symm⟩

theorem indices (h : Held key owner o file complete s saved) :
    ((Ledger.rows s file).map (·.index)).Perm (saved.map (·.index)) := by
  have perm := h.rows.map (Option.map Piece.index)
  have left : ((Ledger.rows s file).map (Chunk.piece? key)).map (Option.map Piece.index) =
      ((Ledger.rows s file).map Chunk.index).map some := by
    rw [List.map_map, List.map_map]
    apply List.map_congr_left
    intro c hc
    obtain ⟨t, _, ht⟩ := h.piece_of_mem hc
    simp [ht, Chunk.index_piece? ht]
  have right : (saved.map some).map (Option.map Piece.index) =
      (saved.map Piece.index).map some := by
    rw [List.map_map, List.map_map]
    rfl
  rw [left, right] at perm
  simpa [List.filterMap_map] using perm.filterMap id

theorem nodup [Store σ] [LawfulStore σ] (h : Held key owner o file complete s saved)
    (sound : Sound s) : (saved.map (·.index)).Nodup :=
  h.indices.nodup_iff.1 (LawfulStore.nodup_indices sound)

theorem perm (h : Held key owner o file complete s saved) {ps : List Piece}
    (perm : saved.Perm ps) : Held key owner o file complete s ps :=
  ⟨h.record, h.rows.trans (perm.map some)⟩

theorem filled (h : Held key owner o file complete s saved)
    (all : (saved.map (·.index)).Perm (List.range o.plan.total)) {r : Record}
    (hr : r.totalChunks = o.plan.total) : r.Filled (Ledger.rows s file) where
  length_eq := by
    have := (h.indices.trans all).length_eq
    rwa [List.length_map, List.length_range, ← hr] at this
  index_lt c hc := by
    have := (h.indices.trans all).mem_iff.1 (List.mem_map_of_mem hc)
    rwa [List.mem_range, ← hr] at this

theorem spared {t : σ} (h : Held key owner o file complete s saved) (spared : Spared file s t) :
    Held key owner o file complete t saved := by
  refine ⟨?_, spared.rows_eq ▸ h.rows⟩
  obtain ⟨r, hr, declares, hc⟩ := h.record
  rcases spared.record r hr with same | hidden
  · exact ⟨r, same, declares, hc⟩
  · exact ⟨r.deleted, hidden, { declares with
      tells := fun keeps => { declares.tells keeps with } }, hc⟩

end Held

/-! ## Storing a piece -/

section Storing

variable [Store σ] [LawfulStore σ] {key : Key} {file : Int} {iv : Option Nonce} {s u : σ}
  {t : Piece}

theorem piece?_of_sealPiece {c : Sealed} (file : Int) (h : sealPiece key iv t = .ok c) :
    c.algorithm = algorithmName ∧
      Chunk.piece? key ⟨file, t.index, c.ciphertext, c.algorithm, c.iv⟩ = some t := by
  cases iv with
  | none => cases h
  | some iv =>
    unfold sealPiece at h
    cases hc : key.sealWith iv.bytes t.data with
    | error f => simp only [hc] at h; cases h
    | ok d =>
      simp only [hc] at h
      cases h
      have known := Key.algorithm_sealWith hc
      refine ⟨known, ?_⟩
      rw [Chunk.piece?, if_pos known, Key.openWith_sealWith hc]
      rfl

theorem storePiece_eq_ok (sound : Sound s) (h : storePiece key file iv s t = .ok u) :
    Changes file s u ∧ record? u file = record? s file ∧
      ∃ c, c.piece? key = some t ∧ (rows u file).Perm (c :: rows s file) := by
  unfold storePiece at h
  cases hc : sealPiece key iv t with
  | error f => rw [hc] at h; cases h
  | ok c =>
    rw [hc] at h
    obtain ⟨known, opens⟩ := piece?_of_sealPiece file hc
    have outcome := LawfulStore.save file t.index sound known
    rw [show Store.save s file t.index c = .ok u from h] at outcome
    cases outcome with
    | done live fresh changes record_eq rows_eq =>
      exact ⟨changes, record_eq, _, opens, rows_eq⟩

/-- Writing a chunk that can be sealed fails if the file is gone or the index is taken. -/
theorem storePiece_eq_error {nonce : Nonce} {f : Failure} (sound : Sound s)
    (fits : Sealing.fits t.data = true) (h : storePiece key file (some nonce) s t = .error f) :
    live? s file = none ∨
      f = .duplicateChunk file t.index ∧ ∃ d ∈ rows s file, d.index = t.index := by
  have sealed : sealPiece key (some nonce) t =
      .ok ⟨Sealing.close key.bytes nonce.bytes t.data, algorithmName, nonce.bytes⟩ := by
    simp only [sealPiece, Key.sealWith_eq_ok fits]
    rfl
  unfold storePiece at h
  rw [sealed] at h
  have outcome := LawfulStore.save (s := s)
    (c := ⟨Sealing.close key.bytes nonce.bytes t.data, algorithmName, nonce.bytes⟩)
    file t.index sound rfl
  rw [show Store.save s file t.index _ = .error f from h] at outcome
  cases outcome with
  | missing gone => exact .inl gone
  | twice live there => exact .inr ⟨rfl, there⟩

theorem Held.save {owner : Int} {o : Offer} {complete : Bool} {saved : List Piece}
    (held : Held key owner o file complete s saved) (sound : Sound s)
    (h : storePiece key file iv s t = .ok u) : Held key owner o file complete u (t :: saved) := by
  obtain ⟨-, record_eq, c, opens, perm⟩ := storePiece_eq_ok sound h
  refine ⟨by rw [record_eq]; exact held.record, ?_⟩
  rw [List.map_cons, ← opens]
  exact (perm.map _).trans (held.rows.cons _)

end Storing

end Strongbox.Upload
