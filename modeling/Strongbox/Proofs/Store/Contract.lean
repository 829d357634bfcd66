import Strongbox.Store

/-!
# The contract of a store

What the operations of a store do to what the store holds, one statement for each of them. An
operation fails for the reasons given here and for no other.
-/

namespace Strongbox

/-- What a store holds. -/
class Ledger (σ : Type) where
  /-- The numbers of its files, deleted or not, complete or not. -/
  files : σ → List Int
  /-- The record of a file, deleted or not, complete or not. -/
  record? : σ → (file : Int) → Option Record
  /-- The chunks of a file. -/
  rows : σ → (file : Int) → List Chunk
  /-- The last number given to a file. -/
  last : σ → Int
  /-- The parts of the store agree with each other. -/
  Sound : σ → Prop
  /-- The store gives the texts of a draft back as they are. -/
  Keeps : Draft → Prop

/-- The record is one of a file just created from a draft. -/
structure Record.IsNew (r : Record) (id owner : Int) (d : Draft) : Prop where
  id_eq : r.id = id
  owner_eq : r.owner = owner
  chunkSize_eq : r.chunkSize = d.chunkSize
  totalChunks_eq : r.totalChunks = d.totalChunks
  originalSize_eq : d.originalSize ≤ Word.maxInt64 → r.originalSize = d.originalSize
  incomplete : r.isComplete = false
  visible : r.isDeleted = false

/-- The record tells what the draft says in words. -/
structure Record.Tells (r : Record) (d : Draft) : Prop where
  filename_eq : r.filename = d.filename
  mimeType_eq : r.mimeType = d.mimeType
  description_eq : r.description = d.description
  labels_eq : r.labels.map (fun l => (l.name, l.value)) = d.labels

/-- Numbering labels leaves their names and values as they are. -/
theorem Record.map_numberLabels (last : Int) (pairs : List (String × String)) :
    (Record.numberLabels last pairs).map (fun l => (l.name, l.value)) = pairs := by
  induction pairs generalizing last with
  | nil => rfl
  | cons p rest ih => simp [Record.numberLabels, ih]

theorem Record.isAvailable_iff {r : Record} :
    r.isAvailable = true ↔ r.isComplete = true ∧ r.isDeleted = false := by
  rw [isAvailable, Bool.and_eq_true, Bool.not_eq_true']

/-- The chunks are those of all indices below the record's total. -/
structure Record.Filled (r : Record) (rows : List Chunk) : Prop where
  length_eq : rows.length = r.totalChunks
  index_lt : ∀ c ∈ rows, c.index < r.totalChunks

def Record.completed (r : Record) (bytes : Nat) : Record :=
  { r with isComplete := true, originalSize := bytes }

def Record.deleted (r : Record) : Record := { r with isDeleted := true }

namespace Ledger

variable {σ : Type} [Ledger σ] {s t : σ} {file : Int}

def live? (s : σ) (file : Int) : Option Record := (record? s file).filter (!·.isDeleted)

/-- The store is sound, and it has changed in one file at most. -/
structure Changes (file : Int) (s t : σ) : Prop where
  sound : Sound t
  last_eq : last t = last s
  record_eq : ∀ g, g ≠ file → record? t g = record? s g
  rows_eq : ∀ g, g ≠ file → rows t g = rows s g

/-- The numbers of all files fit their words. -/
def Numbered (s : σ) : Prop := ∀ file ∈ files s, (Int64.ofInt file).toInt = file

theorem Changes.refl (sound : Sound s) (file : Int) : Changes file s s :=
  ⟨sound, rfl, fun _ _ => rfl, fun _ _ => rfl⟩

/-- A file is left alone, but that its owner may have deleted it. -/
structure Spared (file : Int) (s t : σ) : Prop where
  rows_eq : rows t file = rows s file
  record : ∀ r, record? s file = some r →
    record? t file = some r ∨ record? t file = some r.deleted

theorem live?_eq_some_iff {r : Record} :
    live? s file = some r ↔ record? s file = some r ∧ r.isDeleted = false := by
  simp [live?, Option.filter_eq_some_iff]

theorem isSome_of_live {r : Record} (h : live? s file = some r) : (record? s file).isSome := by
  rw [(live?_eq_some_iff.1 h).1]
  rfl

end Ledger

namespace Store

open Ledger

variable {σ : Type} [Store σ] [Ledger σ]

/-- What can come of creating a file. -/
inductive Creating (s : σ) (owner : Int) (d : Draft) : Except Failure (Int × σ) → Prop where
  | done {r : Record} {t : σ} (isNew : r.IsNew (last s + 1) owner d)
      (tells : Keeps σ d → r.Tells d) (sound : Sound t) (last_eq : last t = last s + 1)
      (record_eq : ∀ g, record? t g = if g = last s + 1 then some r else record? s g)
      (rows_eq : ∀ g, rows t g = rows s g) :
      Creating s owner d (.ok (last s + 1, t))

inductive Saving (s : σ) (file : Int) (index : Nat) (c : Sealed) : Except Failure σ → Prop where
  | missing (gone : live? s file = none) : Saving s file index c (.error .notFound)
  | twice {r : Record} (live : live? s file = some r) (there : ∃ d ∈ rows s file, d.index = index) :
      Saving s file index c (.error (.duplicateChunk file index))
  | done {r : Record} {t : σ} (live : live? s file = some r)
      (fresh : ∀ d ∈ rows s file, d.index ≠ index) (changes : Changes file s t)
      (record_eq : record? t file = record? s file)
      (rows_eq : (rows t file).Perm
        (⟨file, index, c.ciphertext, c.algorithm, c.iv⟩ :: rows s file)) :
      Saving s file index c (.ok t)

inductive Completing (s : σ) (file : Int) (bytes : Nat) : Except Failure σ → Prop where
  | missing (gone : live? s file = none) : Completing s file bytes (.error .notFound)
  | miscounted {r : Record} (live : live? s file = some r) (short : ¬r.Filled (rows s file)) :
      Completing s file bytes (.error (wrongChunks file (rows s file).length r.totalChunks))
  | done {r : Record} {t : σ} (live : live? s file = some r) (filled : r.Filled (rows s file))
      (changes : Changes file s t) (record_eq : record? t file = some (r.completed bytes))
      (rows_eq : rows t file = rows s file) : Completing s file bytes (.ok t)

inductive Deleting (s : σ) (owner file : Int) : Except Failure σ → Prop where
  | missing (gone : ∀ r, live? s file = some r → r.owner ≠ owner) :
      Deleting s owner file (.error .notFound)
  | done {r : Record} {t : σ} (live : live? s file = some r) (owned : r.owner = owner)
      (changes : Changes file s t) (record_eq : record? t file = some r.deleted)
      (rows_eq : rows t file = rows s file) : Deleting s owner file (.ok t)

inductive Purging (s : σ) (file : Int) : Except Failure σ → Prop where
  | missing (gone : record? s file = none) : Purging s file (.error .notFound)
  | done {t : σ} (changes : Changes file s t) (record_eq : record? t file = none)
      (rows_eq : rows t file = []) : Purging s file (.ok t)

end Store

open Ledger in
/-- A store that keeps to its contract. Chunks are sealed in the one known way, and files have sizes
that fit a signed word. -/
class LawfulStore (σ : Type) [Store σ] [Ledger σ] : Prop where
  nodup_files {s : σ} : Sound s → (files s).Nodup
  mem_files_iff {s : σ} {file : Int} : Sound s → (file ∈ files s ↔ (record? s file).isSome)
  le_last {s : σ} {file : Int} : Sound s → file ∈ files s → file ≤ last s
  id_eq {s : σ} {file : Int} {r : Record} : Sound s → record? s file = some r → r.id = file
  rows_of_missing {s : σ} {file : Int} : Sound s → record? s file = none → rows s file = []
  nodup_indices {s : σ} {file : Int} : Sound s → ((rows s file).map (·.index)).Nodup
  create {s : σ} (now : Moment) (owner : Int) (d : Draft) : Sound s →
    Store.Creating s owner d (Store.create s now owner d)
  save {s : σ} {c : Sealed} (file : Int) (index : Nat) : Sound s → c.algorithm = algorithmName →
    Store.Saving s file index c (Store.save s file index c)
  complete {s : σ} {bytes : Nat} (file : Int) : Sound s → bytes ≤ Word.maxInt64 →
    Store.Completing s file bytes (Store.complete s file bytes)
  delete {s : σ} (owner file : Int) : Sound s →
    Store.Deleting s owner file (Store.delete s owner file)
  purge {s : σ} (file : Int) : Sound s → Store.Purging s file (Store.purge s file)
  info_live {s : σ} {file : Int} {r : Record} : Sound s → live? s file = some r →
    Store.info s file r.owner = .ok r
  chunks_known {s : σ} {file : Int} {r : Record} {range : Span} : Sound s →
    record? s file = some r → range.start ≤ range.stop →
    ∃ cs, Store.chunks s file range = .ok cs ∧
      cs.Perm ((rows s file).filter (·.index ∈ range)) ∧ cs.Pairwise (·.index ≤ ·.index)

namespace LawfulStore

open Ledger

variable {σ : Type} [Store σ] [Ledger σ] [LawfulStore σ] {s : σ} {file : Int}

theorem le_last_of_isSome (sound : Sound s) (h : (record? s file).isSome) : file ≤ last s :=
  le_last sound ((mem_files_iff sound).2 h)

theorem record?_of_last_lt (sound : Sound s) (h : last s < file) : record? s file = none := by
  cases hr : record? s file with
  | none => rfl
  | some r =>
    have := le_last_of_isSome sound (by rw [hr]; rfl : (record? s file).isSome)
    omega

end LawfulStore

end Strongbox
