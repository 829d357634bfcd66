import Strongbox.Proofs.Store.History
import Strongbox.Proofs.Store.Stamped
import Strongbox.Proofs.Traffic.Calls

/-!
# Numbers given out

A store numbers its files in a row, and its labels in another. A call takes one number for a file at
most, and as many for labels as it brings, so the numbers fit their words until a great many calls
have been made.
-/

namespace Strongbox

open Ledger Stamped

def Store.Call.labels : Call → Nat
  | create _ _ d => d.labels.length
  | _ => 0

namespace Store.History

variable {σ : Type} [Store σ]

theorem length_deeds_after (h : History σ) (call : Call) :
    (h.after call).deeds.length ≤ h.deeds.length + 1 := by
  have noted (deed : Deed) (r : Except Failure σ) :
      (h.note deed r).deeds.length ≤ h.deeds.length + 1 := by
    cases r with
    | ok s => exact Nat.le_refl _
    | error f => exact Nat.le_succ _
  cases call with
  | create now owner d =>
    simp only [after]
    split
    · exact Nat.le_refl _
    · exact Nat.le_succ _
  | save | complete | delete | purge => exact noted ..
  | info | chunks | list => exact Nat.le_succ _

theorem length_deeds_afterAll (h : History σ) (calls : List Call) :
    (h.afterAll calls).deeds.length ≤ h.deeds.length + calls.length := by
  induction calls generalizing h with
  | nil => exact Nat.le_refl _
  | cons call calls ih =>
    have := h.length_deeds_after call
    have := ih (h.after call)
    rw [List.length_cons]
    exact Nat.le_trans this (by omega)

variable [Ledger σ] [Stamped σ] [StampedStore σ]

theorem lastLabel_after (h : History σ) (call : Call) :
    lastLabel (h.after call).store ≤ lastLabel h.store + call.labels := by
  have noted {deed : Deed} {r : Except Failure σ}
      (kept : ∀ s, r = .ok s → lastLabel s = lastLabel h.store) :
      lastLabel (h.note deed r).store ≤ lastLabel h.store + (0 : Nat) := by
    cases r with
    | ok s => exact Int.le_of_eq (by rw [note, kept s rfl, Int.natCast_zero, Int.add_zero])
    | error f => exact Int.le_add_of_nonneg_right (Int.le_refl 0)
  cases call with
  | create now owner d =>
    simp only [after]
    split
    · rename_i made
      exact Int.le_of_eq (StampedStore.label made)
    · exact Int.le_add_of_nonneg_right (Int.natCast_nonneg _)
  | save => exact noted fun _ h => StampedStore.save h
  | complete => exact noted fun _ h => StampedStore.complete h
  | delete => exact noted fun _ h => StampedStore.delete h
  | purge => exact noted fun _ h => StampedStore.purge h
  | info | chunks | list => exact Int.le_add_of_nonneg_right (Int.le_refl 0)

/-- The last number of a label grows by no more than the labels that are brought. -/
theorem lastLabel_afterAll (h : History σ) (calls : List Call) :
    lastLabel (h.afterAll calls).store ≤ lastLabel h.store + sumOver Call.labels calls := by
  induction calls generalizing h with
  | nil => exact Int.le_add_of_nonneg_right (Int.le_refl 0)
  | cons call calls ih =>
    have := h.lastLabel_after call
    have later := ih (h.after call)
    rw [sumOver_cons, Int.natCast_add]
    exact Int.le_trans later (by omega)

end Store.History

variable {σ : Type} [Store σ] [Ledger σ] [Recall σ] [RecallingStore σ] {h : Store.History σ}

/-- While fewer things have been done than a signed word counts, the numbers of all files fit. -/
theorem Store.Accounts.numbered (accounts : Accounts h) (few : h.deeds.length ≤ Word.maxInt64) :
    Numbered h.store := by
  intro file hfile
  have known := (LawfulStore.mem_files_iff accounts.sound).1 hfile
  have le := LawfulStore.le_last accounts.sound hfile
  obtain ⟨d, made⟩ := ((accounts.account file).known_iff.1 known).1
  have pos := accounts.positive file d made
  have := accounts.counted.2
  simp only [Word.maxInt64] at few
  exact Int64.toInt_ofInt_of_le (by omega) (by omega)

/-- The numbers of all files fit after any calls and any traffic, unless a great many calls have
been made. -/
theorem Traffic.Run.numbered (accounts : Store.Accounts h) {calls : List Store.Call} {tr : Transfer}
    {underway : List Call} {es : List Event} {v : Traffic σ}
    (run : Run tr ⟨(h.afterAll calls).store, underway⟩ es v)
    (few : h.deeds.length + calls.length + es.length ≤ Word.maxInt64) : Numbered v.store := by
  obtain ⟨more, fewer, reached⟩ := run.calls rfl
  have := h.length_deeds_afterAll calls
  have := (h.afterAll calls).length_deeds_afterAll more
  rw [← reached]
  exact ((accounts.afterAll calls).afterAll more).numbered (by omega)

end Strongbox
