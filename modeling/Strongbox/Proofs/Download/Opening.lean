import Strongbox.Proofs.Download
import Strongbox.Proofs.Store.History
import Strongbox.Settings

/-!
# How downloads open

The settings of a service ask for at least one worker, but a partition counts workers in thirty-two
bits. A multiple of what these bits can tell apart passes every check, and then no file can be
opened. With any other number each chunk is given to one worker.

## Main statements

* `workerCount_eq_zero_iff`: which settings stand for no worker.
* `Download.begin_of_settings`: how an available file is opened with the workers of any settings
  that pass the checks.
-/

namespace Strongbox

open Ledger

/-- A number of at least one worker stands for none when its low thirty-two bits are zero. -/
theorem workerCount_eq_zero_iff {n : Nat} (h : 0 < n) :
    workerCount n = 0 ↔ Word.count32 ∣ n := by
  rw [workerCount, Nat.max_eq_left h, Nat.dvd_iff_mod_eq_zero]

namespace Settings

variable {settings : Settings} {t : Transfer}

theorem workers_pos_of_validate (h : settings.validate = .ok ()) : 0 < settings.workers := by
  refine Nat.pos_of_ne_zero fun none => ?_
  obtain ⟨a, -, h⟩ := bind_eq_ok_iff.1 h
  by_cases secret : settings.tokenSecret.isEmpty = true
  · rw [if_pos secret] at h
    cases h
  · rw [if_neg secret, if_pos none] at h
    cases h

/-- The transfer engines have as many workers as the settings ask for. -/
theorem workers_of_transfer (h : settings.transfer = .ok t) : t.workers = settings.workers := by
  obtain ⟨key, -, made⟩ := bind_eq_ok_iff.1 h
  rw [Transfer.make] at made
  split at made <;> cases made
  rfl

end Settings

namespace Download

variable {σ : Type} [Store σ] [Ledger σ] [LawfulStore σ] {settings : Settings} {t : Transfer}
  {s : σ} {file : Int} {r : Record}

/-- With the workers of settings that pass the checks, an available file has no answer if the low
thirty-two bits of their number are zero. Otherwise it opens, and its workers are about to fetch
each chunk once. -/
theorem begin_of_settings (accepted : settings.validate = .ok ())
    (made : settings.transfer = .ok t) (sound : Sound s) (hr : record? s file = some r)
    (available : r.isAvailable = true) :
    (Word.count32 ∣ settings.workers → begin t.workers r.owner file s = .error .aborted) ∧
    (¬Word.count32 ∣ settings.workers → ∃ (d : Distributor) (ranges : List Span),
      begin t.workers r.owner file s = .ok d ∧
      d.workers = ranges.map .fetching ∧
      ranges.flatMap Span.indices = List.range r.totalChunks) := by
  have zero_iff := workerCount_eq_zero_iff (Settings.workers_pos_of_validate accepted)
  rw [begin_of_available sound hr available, Settings.workers_of_transfer made]
  constructor
  · intro wrapped
    rw [(partition_eq_none_iff ..).2 (zero_iff.2 wrapped)]
  · intro whole
    obtain ⟨ranges, hranges⟩ := Option.ne_none_iff_exists'.1
      (mt (partition_eq_none_iff r.totalChunks _).1 (mt zero_iff.1 whole))
    rw [hranges]
    refine ⟨_, ranges.filter fun range => !range.isEmpty, rfl, rfl, ?_⟩
    have due := pending_fetching ranges
    rw [List.flatMap_map] at due
    exact due.trans (indices_of_partition hranges).1

/-- A file of seven chunks: for a number of workers whose low bits are zero it has no answer, and
for three more it opens. -/
theorem begin_of_seven_chunks :
    let calls : List Store.Call := .create default 5 { totalChunks := 7 } ::
      (List.range 7).map (.save 1 · default) ++ [.complete 1 0]
    let s := ((⟨{}, []⟩ : Store.History Resident).afterAll calls).store
    let settings (more : Nat) : Settings := {
      tokenSecret := "secret"
      workers := Word.count32 + more
      encryptionKey := some (String.ofList (List.replicate 64 'a')) }
    (∃ t, (settings 0).validate = .ok () ∧ (settings 0).transfer = .ok t ∧
      begin t.workers 5 1 s = .error .aborted) ∧
    ∃ (t : Transfer) (d : Distributor) (ranges : List Span), (settings 3).validate = .ok () ∧
      (settings 3).transfer = .ok t ∧ begin t.workers 5 1 s = .ok d ∧
      d.workers = ranges.map .fetching ∧ ranges.flatMap Span.indices = List.range 7 := by
  intro calls s settings
  have sound : Sound s := (Resident.accounts_empty.afterAll calls).sound
  obtain ⟨r, hr, owner_eq, available, total_eq⟩ : ∃ r, record? s 1 = some r ∧ r.owner = 5 ∧
      r.isAvailable = true ∧ r.totalChunks = 7 := by
    have stored : (record? s 1).map (fun r => (r.owner, r.isAvailable, r.totalChunks)) =
        some (5, true, 7) := by decide +kernel
    obtain ⟨r, hr, seen⟩ := Option.map_eq_some_iff.1 stored
    simp only [Prod.mk.injEq] at seen
    exact ⟨r, hr, seen⟩
  have ends {α : Type} {x : Except Failure α} (h : x.toOption.isSome = true) : ∃ a, x = .ok a := by
    cases x with
    | error f => cases h
    | ok a => exact ⟨a, rfl⟩
  obtain ⟨_, accepted⟩ := ends (x := (settings 0).validate) (by decide +kernel)
  obtain ⟨t, made⟩ := ends (x := (settings 0).transfer) (by decide +kernel)
  obtain ⟨_, accepted'⟩ := ends (x := (settings 3).validate) (by decide +kernel)
  obtain ⟨t', made'⟩ := ends (x := (settings 3).transfer) (by decide +kernel)
  have wrapped := (begin_of_settings accepted made sound hr available).1 (by decide)
  obtain ⟨d, ranges, opened, workers_eq, once⟩ :=
    (begin_of_settings accepted' made' sound hr available).2 (by decide)
  rw [owner_eq] at wrapped opened
  rw [total_eq] at once
  exact ⟨⟨t, accepted, made, wrapped⟩, t', d, ranges, accepted', made', opened, workers_eq, once⟩

end Download

end Strongbox
