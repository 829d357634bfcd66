import Strongbox.Proofs.Store.History

/-!
# Complete files

Whatever calls are made of a store, a file is marked as complete exactly when its chunks are those
of its plan, and what is marked once stays so: the chunks of a complete file are there until it is
forgotten, and a deleted file is never seen again.

## Main definitions

* `Store.Gated`: what holds of a store and of what has been done to it.

## Main statements

* `Store.completion_gate`: it holds of both stores after all calls.
-/

namespace Strongbox.Store

open Ledger

/-- Files are marked as complete when they are, and marks are not taken back. -/
structure Gated {σ : Type} [Store σ] [Ledger σ] (h : History σ) : Prop where
  /-- A file is marked if it is there and has a chunk for each index below its total, and no other.
  -/
  completes_iff : ∀ file bytes, (∃ t, Store.complete h.store file bytes = .ok t) ↔
    ∃ r, record? h.store file = some r ∧ r.isDeleted = false ∧
      ∀ i, (∃ e ∈ rows h.store file, e.index = i) ↔ i < r.totalChunks
  /-- Otherwise it is missing, or it lacks chunks or has too many; all is left as it was. -/
  refuses : ∀ file bytes f, Store.complete h.store file bytes = .error f →
    h.after (.complete file bytes) = h ∧
      (f = .notFound ∨ ∃ found total, f = wrongChunks file found total)
  /-- The chunks of a complete file are there. -/
  covered : ∀ file r, record? h.store file = some r → r.isComplete = true →
    ∀ i < r.totalChunks, ∃ e ∈ rows h.store file, e.index = i
  /-- A complete file has been marked. -/
  earned : ∀ file r, record? h.store file = some r → r.isComplete = true →
    ∃ bytes, .completed file bytes ∈ h.deeds
  /-- A deleted file stays so. -/
  hidden : ∀ file r, record? h.store file = some r → r.isDeleted = true → ∀ calls r',
    record? (h.afterAll calls).store file = some r' → r'.isDeleted = true

variable {σ : Type} [Store σ] [Ledger σ] [Recall σ] [RecallingStore σ] {h : History σ} {file : Int}

namespace Accounts

theorem completes_iff (accounts : Accounts h) (file : Int) (bytes : Nat) :
    (∃ t, Store.complete h.store file bytes = .ok t) ↔
      ∃ r, live? h.store file = some r ∧ r.Filled (rows h.store file) := by
  have outcome := RecallingStore.completing file bytes accounts.sound
  generalize Store.complete h.store file bytes = result at outcome
  cases outcome with
  | missing gone => simp [gone]
  | miscounted live short => simp [live, short]
  | @done r t live filled => exact iff_of_true ⟨t, rfl⟩ ⟨r, live, filled⟩

theorem refuses (accounts : Accounts h) {bytes : Nat} {f : Failure}
    (error : Store.complete h.store file bytes = .error f) :
    f = .notFound ∨ ∃ found total, f = wrongChunks file found total := by
  have outcome := RecallingStore.completing file bytes accounts.sound
  rw [error] at outcome
  cases outcome with
  | missing => exact .inl rfl
  | miscounted => exact .inr ⟨_, _, rfl⟩

/-- What a store holds is what has been done to it, and so its files are marked rightly. -/
theorem gated (accounts : Accounts h) : Gated h where
  completes_iff file bytes := by
    have nodup : ((rows h.store file).map (·.index)).Nodup :=
      LawfulStore.nodup_indices accounts.sound
    rw [accounts.completes_iff]
    simp only [live?_eq_some_iff, Record.filled_iff nodup, and_assoc]
  refuses file bytes f error := by
    refine ⟨?_, accounts.refuses error⟩
    rw [History.after, error]
    rfl
  covered file := (accounts.account file).covered
  earned file r hr := ((accounts.account file).isComplete_iff r hr).1
  hidden file r hr deleted calls r' hr' := by
    have done := ((accounts.account file).isDeleted_iff r hr).1 deleted
    exact (((accounts.afterAll calls).account file).isDeleted_iff r' hr').2
      ((h.deeds_afterAll calls).subset done)

end Accounts

/-- Both stores mark files as complete when they are, and take no mark back, whatever calls are made
of them. -/
theorem completion_gate (calls : List Call) :
    Gated ((⟨{}, []⟩ : History Resident).afterAll calls) ∧
    Gated ((⟨{}, []⟩ : History Tables).afterAll calls) :=
  ⟨(Resident.accounts_empty.afterAll calls).gated, (Tables.accounts_empty.afterAll calls).gated⟩

end Strongbox.Store
