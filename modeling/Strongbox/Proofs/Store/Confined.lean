import Strongbox.Proofs.Store.Resident
import Strongbox.Proofs.Store.Tables
import Strongbox.Store.Faulty

/-!
# Operations that keep to one file

What an operation may change where it succeeds. Nothing is said about when it fails, so this also
holds of a store in which operations fail for reasons of their own.
-/

namespace Strongbox

/-- The labels that a store keeps. -/
class Labelled (σ : Type) where
  /-- The labels kept for a file, whether or not the file has a record. -/
  labels : σ → (file : Int) → List Label

namespace Ledger

variable {σ : Type} [Ledger σ] [Labelled σ] {s t u : σ} {file g : Int}

structure Alike (file : Int) (s t : σ) : Prop where
  record_eq : record? t file = record? s file
  rows_eq : rows t file = rows s file
  labels_eq : Labelled.labels t file = Labelled.labels s file

structure Gone (file : Int) (s : σ) : Prop where
  record_eq : record? s file = none
  rows_eq : rows s file = []
  labels_eq : Labelled.labels s file = []

/-- The store is sound, and it has changed in one file at most, which was there. -/
structure Confined (file : Int) (s t : σ) : Prop where
  known : (record? s file).isSome
  sound : Sound t
  last_eq : last t = last s
  alike : ∀ g, g ≠ file → Alike g s t

/-- The store is sound, and it has changed in a new file, which has the next number. -/
structure Extended (file : Int) (s t : σ) : Prop where
  file_eq : file = last s + 1
  known : (record? t file).isSome
  sound : Sound t
  last_eq : last t = file
  alike : ∀ g, g ≠ file → Alike g s t

theorem Alike.refl (file : Int) (s : σ) : Alike file s s := ⟨rfl, rfl, rfl⟩

theorem Gone.of_alike (gone : Gone file s) (alike : Alike file s t) : Gone file t where
  record_eq := alike.record_eq.trans gone.record_eq
  rows_eq := alike.rows_eq.trans gone.rows_eq
  labels_eq := alike.labels_eq.trans gone.labels_eq

/-- What changes a file that is there leaves one alone of which there is nothing. -/
theorem Gone.of_confined (gone : Gone file s) (confined : Confined g s t) : Gone file t := by
  refine gone.of_alike (confined.alike file ?_)
  rintro rfl
  have known := confined.known
  rw [gone.record_eq] at known
  cases known

theorem Confined.of_changes (changes : Changes file s t) (known : (record? s file).isSome)
    (labels : ∀ g, g ≠ file → Labelled.labels t g = Labelled.labels s g) : Confined file s t where
  known := known
  sound := changes.sound
  last_eq := changes.last_eq
  alike g hg := ⟨changes.record_eq g hg, changes.rows_eq g hg, labels g hg⟩

end Ledger

open Ledger in
/-- A store whose operations keep to the file that they are about, where they succeed. They may fail
for any reason, and an operation that fails leaves no store behind to speak of. -/
class ConfinedStore (σ : Type) [Store σ] [Ledger σ] [Labelled σ] : Prop where
  le_last {s : σ} {file : Int} : Sound s → (record? s file).isSome → file ≤ last s
  create {s t : σ} {now : Moment} {owner file : Int} {d : Draft} : Sound s →
    Store.create s now owner d = .ok (file, t) → Extended file s t
  save {s t : σ} {file : Int} {index : Nat} {c : Sealed} : Sound s →
    Store.save s file index c = .ok t → Confined file s t
  complete {s t : σ} {file : Int} {bytes : Nat} : Sound s →
    Store.complete s file bytes = .ok t → Confined file s t
  delete {s t : σ} {owner file : Int} : Sound s →
    Store.delete s owner file = .ok t → Confined file s t
  purge {s t : σ} {file : Int} : Sound s →
    Store.purge s file = .ok t → Confined file s t ∧ Gone file t

open Ledger

/-- What one operation may make of a store. -/
inductive Ledger.Onward {σ : Type} [Ledger σ] [Labelled σ] (s : σ) : σ → Prop where
  | same : Onward s s
  | extended {file : Int} {t : σ} (h : Extended file s t) : Onward s t
  | confined {file : Int} {t : σ} (h : Confined file s t) : Onward s t

namespace Ledger

section

variable {σ : Type} [Store σ] [Ledger σ] [Labelled σ] {s t : σ} {file : Int}

omit [Store σ] in
theorem Onward.sound (onward : Onward s t) (sound : Sound s) : Sound t := by
  cases onward with
  | same => exact sound
  | extended h => exact h.sound
  | confined h => exact h.sound

omit [Store σ] in
theorem Onward.last_le (onward : Onward s t) : last s ≤ last t := by
  cases onward with
  | same => exact Int.le_refl _
  | extended h =>
    have := h.file_eq
    have := h.last_eq
    omega
  | confined h => exact Int.le_of_eq h.last_eq.symm

omit [Store σ] in
/-- Nothing comes back under a number that was given before. -/
theorem Onward.gone (onward : Onward s t) (gone : Gone file s) (le : file ≤ last s) :
    Gone file t := by
  cases onward with
  | same => exact gone
  | extended h =>
    have := h.file_eq
    exact gone.of_alike (h.alike file (by omega))
  | confined h => exact gone.of_confined h

omit [Store σ] in
theorem Onward.extended_of_new (onward : Onward s t) (missing : record? s file = none)
    (there : (record? t file).isSome) : Extended file s t := by
  cases onward with
  | same =>
    rw [missing] at there
    cases there
  | @extended g t h =>
    by_cases hg : file = g
    · exact hg ▸ h
    · rw [(h.alike file hg).record_eq, missing] at there
      cases there
  | @confined g t h =>
    by_cases hg : file = g
    · have known := h.known
      rw [← hg, missing] at known
      cases known
    · rw [(h.alike file hg).record_eq, missing] at there
      cases there

theorem Extended.missing [ConfinedStore σ] (extended : Extended file s t) (sound : Sound s) :
    record? s file = none := by
  cases hr : record? s file with
  | none => rfl
  | some r =>
    have := ConfinedStore.le_last sound (by rw [hr]; rfl : (record? s file).isSome)
    have := extended.file_eq
    omega

end

end Ledger

/-! ## The resident store -/

namespace Resident

variable {s t : Resident} {file : Int}

instance : Labelled Resident where
  labels s file := ((s.record? file).map (·.labels)).getD []

theorem labels_eq (s : Resident) (file : Int) :
    Labelled.labels s file = ((Ledger.record? s file).map (·.labels)).getD [] := rfl

theorem confined_of_changes (changes : Changes file s t) (known : (Ledger.record? s file).isSome) :
    Confined file s t :=
  .of_changes changes known fun g hg => by rw [labels_eq, labels_eq, changes.record_eq g hg]

instance : ConfinedStore Resident where
  le_last := LawfulStore.le_last_of_isSome
  create {s t now owner file d} hs h := by
    cases h
    cases creating hs now owner d with
    | done isNew tells sound last_eq record_eq rows_eq =>
      refine ⟨rfl, ?_, sound, last_eq, fun g hg => ?_⟩
      · rw [record_eq]
        exact congrArg Option.isSome (if_pos rfl)
      · have elsewhere := (record_eq g).trans (if_neg hg)
        exact ⟨elsewhere, rows_eq g, by rw [labels_eq, labels_eq, elsewhere]⟩
  save {s t file index c} hs h := by
    have outcome := saving hs file index c
    rw [show s.save file index c = .ok t from h] at outcome
    cases outcome with
    | done live fresh changes => exact confined_of_changes changes (isSome_of_live live)
  complete {s t file bytes} hs h := by
    have outcome := completing hs file bytes
    rw [show s.complete file bytes = .ok t from h] at outcome
    cases outcome with
    | done live filled changes => exact confined_of_changes changes (isSome_of_live live)
  delete {s t owner file} hs h := by
    have outcome := deleting hs owner file
    rw [show s.delete owner file = .ok t from h] at outcome
    cases outcome with
    | done live owned changes => exact confined_of_changes changes (isSome_of_live live)
  purge {s t file} hs h := by
    have outcome := purging hs file
    have known : (Ledger.record? s file).isSome := by
      simp only [Store.purge, Resident.purge] at h
      split at h
      · rw [ledger_record?, ‹s.file? file = _›]
        rfl
      · cases h
    rw [show s.purge file = .ok t from h] at outcome
    cases outcome with
    | done changes record_eq rows_eq =>
      exact ⟨confined_of_changes changes known, record_eq, rows_eq,
        by rw [labels_eq, record_eq]; rfl⟩

end Resident

/-! ## The relational store -/

namespace Tables

instance : Labelled Tables where
  labels := labelsOf

theorem labels_eq (t : Tables) (file : Int) : Labelled.labels t file = t.labelsOf file := rfl

instance : ConfinedStore Tables where
  le_last := LawfulStore.le_last_of_isSome
  create {t u now owner file d} hs h := by
    cases h
    cases creating hs now owner d with
    | done isNew tells sound last_eq record_eq rows_eq =>
      refine ⟨rfl, ?_, sound, last_eq, fun g hg => ⟨(record_eq g).trans (if_neg hg), rows_eq g, ?_⟩⟩
      · rw [record_eq]
        exact congrArg Option.isSome (if_pos rfl)
      · simp only [labels_eq, labelsOf, filter_labels_of_ne hg]
  save {t u file index c} hs h := by
    simp only [Store.save, Tables.save] at h
    split at h
    · cases h
    · rename_i r live
      split at h
      · cases h
      · rename_i fresh
        cases h
        have fresh : ∀ d ∈ t.chunksOf file, d.index ≠ index := by simpa using fresh
        refine .of_changes ⟨sound_save hs live rfl fresh, rfl, fun _ _ => rfl, fun g hg => ?_⟩
          (isSome_of_live (ledger_live hs live)) fun _ _ => rfl
        rw [ledger_rows, chunksOf_save, if_neg hg, ledger_rows]
  complete {t u file bytes} hs h := by
    simp only [Store.complete, Tables.complete] at h
    split at h
    · cases h
    · rename_i r live
      split at h <;> cases h
      exact .of_changes (changes_update hs fun _ => rfl) (isSome_of_live (ledger_live hs live))
        fun _ _ => rfl
  delete {t u owner file} hs h := by
    simp only [Store.delete, Tables.delete] at h
    split at h
    · rename_i r live
      split at h <;> cases h
      exact .of_changes (changes_update hs fun _ => rfl) (isSome_of_live (ledger_live hs live))
        fun _ _ => rfl
    · cases h
  purge {t u file} hs h := by
    have outcome := purging hs file
    simp only [Store.purge] at h
    rw [h] at outcome
    simp only [Tables.purge] at h
    split at h <;> cases h
    rename_i there
    cases outcome with
    | done changes record_eq rows_eq =>
      have known : (Ledger.record? t file).isSome := by
        rw [ledger_record?, Option.isSome_map, row?, List.find?_isSome]
        simpa using there
      have others : ∀ g, Labelled.labels (t.without file) g =
          if g = file then [] else Labelled.labels t g := by
        intro g
        simp only [labels_eq, labelsOf, without, filter_filter_ne LabelRow.file]
        split <;> rfl
      exact ⟨.of_changes changes known fun g hg => (others g).trans (if_neg hg), record_eq, rows_eq,
        (others file).trans (if_pos rfl)⟩

end Tables

/-! ## Stores with faults -/

namespace Faulty

variable {σ : Type} {s t : Faulty σ} {file : Int}

theorem of_planted {α : Type} {fault : Option Failure} {act : Except Failure α} {a : α}
    (h : planted fault act = .ok a) : act = .ok a := by
  cases fault with
  | none => exact h
  | some f => cases h

theorem of_renew {r : Except Failure σ} (h : s.renew r = .ok t) : r = .ok t.inner := by
  cases r with
  | error f => cases h
  | ok inner =>
    cases h
    rfl

instance [Ledger σ] : Ledger (Faulty σ) where
  files s := files s.inner
  record? s := Ledger.record? s.inner
  rows s := rows s.inner
  last s := last s.inner
  Sound s := Ledger.Sound s.inner
  Keeps := Keeps σ

instance [Labelled σ] : Labelled (Faulty σ) where
  labels s := Labelled.labels s.inner

variable [Ledger σ] [Labelled σ]

theorem confined_of_inner (h : Confined file s.inner t.inner) : Confined file s t where
  known := h.known
  sound := h.sound
  last_eq := h.last_eq
  alike g hg := ⟨(h.alike g hg).record_eq, (h.alike g hg).rows_eq, (h.alike g hg).labels_eq⟩

instance [Store σ] [ConfinedStore σ] : ConfinedStore (Faulty σ) where
  le_last {s _} := ConfinedStore.le_last (s := s.inner)
  create {s t now owner file d} hs h := by
    have h := of_planted h
    cases hc : Store.create s.inner now owner d with
    | error f =>
      rw [hc] at h
      cases h
    | ok made =>
      rw [hc] at h
      cases h
      have extended := ConfinedStore.create (s := s.inner) hs hc
      exact ⟨extended.file_eq, extended.known, extended.sound, extended.last_eq, fun g hg =>
        have alike := extended.alike g hg
        ⟨alike.record_eq, alike.rows_eq, alike.labels_eq⟩⟩
  save hs h := confined_of_inner (ConfinedStore.save hs (of_renew (of_planted h)))
  complete hs h := confined_of_inner (ConfinedStore.complete hs (of_renew (of_planted h)))
  delete hs h := confined_of_inner (ConfinedStore.delete hs (of_renew (of_planted h)))
  purge {s t file} hs h := by
    have sound : Sound s.inner := hs
    have forgotten : Store.purge s.inner file = .ok t.inner := of_renew (of_planted h)
    obtain ⟨confined, gone⟩ := ConfinedStore.purge sound forgotten
    exact ⟨confined_of_inner confined, gone.record_eq, gone.rows_eq, gone.labels_eq⟩

end Faulty

end Strongbox
