import Strongbox.Proofs.Keyed
import Strongbox.Proofs.Store.Contract
import Strongbox.Store.Resident

/-!
# The resident store keeps to its contract
-/

namespace Strongbox

theorem insertChunk_perm (c : Chunk) (cs : List Chunk) : (insertChunk c cs).Perm (c :: cs) := by
  induction cs with
  | nil => exact .refl _
  | cons d rest ih =>
    unfold insertChunk
    split
    · exact .refl _
    · exact (ih.cons d).trans (.swap c d rest)

theorem pairwise_insertChunk {c : Chunk} {cs : List Chunk} (h : cs.Pairwise (·.index < ·.index))
    (fresh : ∀ d ∈ cs, d.index ≠ c.index) : (insertChunk c cs).Pairwise (·.index < ·.index) := by
  induction cs with
  | nil => simp [insertChunk]
  | cons d rest ih =>
    have hne := fresh d List.mem_cons_self
    have hd := List.pairwise_cons.1 h
    unfold insertChunk
    split
    · refine List.pairwise_cons.2 ⟨fun e he => ?_, h⟩
      rcases List.mem_cons.1 he with rfl | he
      · omega
      · have := hd.1 e he
        omega
    · refine List.pairwise_cons.2 ⟨fun e he => ?_, ih hd.2 fun e he => fresh e (.tail _ he)⟩
      rcases mem_insertChunk.1 he with rfl | he
      · omega
      · exact hd.1 e he

abbrev StoredFile.id (f : StoredFile) : Int := f.record.id

namespace Resident

open Ledger

/-- Numbers are given out once, in a row, and the chunks of each file are in order. -/
structure Sound (s : Resident) : Prop where
  nodup : (s.files.map StoredFile.id).Nodup
  le_last : ∀ f ∈ s.files, f.id ≤ s.lastFile
  sorted : ∀ f ∈ s.files, f.chunks.Pairwise (·.index < ·.index)

instance : Ledger Resident where
  files s := s.files.map StoredFile.id
  record? := record?
  rows s file := ((s.file? file).map (·.chunks)).getD []
  last s := s.lastFile
  Sound := Sound
  Keeps _ := True

theorem sound_empty : Ledger.Sound ({} : Resident) :=
  ⟨List.nodup_nil, nofun, nofun⟩

variable {s : Resident} {file g : Int} {f : StoredFile} {change : StoredFile → StoredFile}

theorem ledger_record? (s : Resident) (file : Int) :
    Ledger.record? s file = (s.file? file).map (·.record) := rfl

theorem ledger_rows (s : Resident) (file : Int) :
    rows s file = ((s.file? file).map (·.chunks)).getD [] := rfl

theorem ledger_live? (s : Resident) (file : Int) :
    Ledger.live? s file = (s.live? file).map (·.record) := by
  rw [Ledger.live?, ledger_record?, Resident.live?]
  cases s.file? file with
  | none => rfl
  | some f => cases h : f.record.isDeleted <;> simp [Option.filter, h]

theorem live?_eq_some_iff :
    s.live? file = some f ↔ s.file? file = some f ∧ f.record.isDeleted = false := by
  simp [Resident.live?, Option.filter_eq_some_iff]

theorem ledger_live (h : s.live? file = some f) : Ledger.live? s file = some f.record := by
  rw [ledger_live?, h]
  rfl

theorem ledger_gone (h : s.live? file = none) : Ledger.live? s file = none := by
  rw [ledger_live?, h]
  rfl

theorem mem_of_file? (h : s.file? file = some f) : f ∈ s.files ∧ f.id = file :=
  Keyed.of_find? StoredFile.id h

theorem record?_of_mem (hs : s.Sound) (hf : f ∈ s.files) :
    Ledger.record? s f.id = some f.record :=
  congrArg (Option.map StoredFile.record) (Keyed.find?_of_mem StoredFile.id hs.nodup hf)

theorem file?_update (same : ∀ f, (change f).id = f.id) :
    (s.update file change).file? g = if g = file then (s.file? g).map change else s.file? g := by
  have keyed := Keyed.find?_map (k := g) (l := s.files) StoredFile.id
    (fun f => if f.record.id = file then change f else f)
    (fun f => by split <;> simp [same])
  rw [show (s.update file change).file? g = _ from keyed]
  cases h : s.file? g with
  | none =>
    rw [show s.files.find? (fun f => f.id = g) = none from h]
    simp
  | some f =>
    rw [show s.files.find? (fun f => f.id = g) = some f from h]
    have hid : f.record.id = g := (mem_of_file? h).2
    simp only [Option.map_some, hid]
    split <;> rfl

theorem changes_update (hs : s.Sound) (same : ∀ f, (change f).id = f.id)
    (sorted : ∀ f, s.file? file = some f → (change f).chunks.Pairwise (·.index < ·.index)) :
    Changes file s (s.update file change) where
  sound := by
    have keep : ∀ f : StoredFile, (if f.record.id = file then change f else f).id = f.id := by
      intro f
      split <;> simp [same]
    refine ⟨?_, fun f hf => ?_, fun f hf => ?_⟩
    · rw [show (s.update file change).files = s.files.map _ from rfl, Keyed.map_map _ keep]
      exact hs.nodup
    · obtain ⟨e, he, rfl⟩ := List.mem_map.1 hf
      rw [keep]
      exact hs.le_last e he
    · obtain ⟨e, he, rfl⟩ := List.mem_map.1 hf
      split
      · rename_i hid
        exact sorted e (hid ▸ Keyed.find?_of_mem StoredFile.id hs.nodup he)
      · exact hs.sorted e he
  last_eq := rfl
  record_eq g hg := by rw [ledger_record?, ledger_record?, file?_update same, if_neg hg]
  rows_eq g hg := by rw [ledger_rows, ledger_rows, file?_update same, if_neg hg]

theorem changes_erase (hs : s.Sound) :
    Changes file s { s with files := s.files.filter (·.record.id ≠ file) } where
  sound := ⟨Keyed.nodup_filter _ hs.nodup, fun f hf => hs.le_last f (List.mem_filter.1 hf |>.1),
    fun f hf => hs.sorted f (List.mem_filter.1 hf |>.1)⟩
  last_eq := rfl
  record_eq g hg := by
    simp only [ledger_record?, file?]
    rw [Keyed.find?_filter_ne StoredFile.id, if_neg hg]
  rows_eq g hg := by
    simp only [ledger_rows, file?]
    rw [Keyed.find?_filter_ne StoredFile.id, if_neg hg]

theorem file?_create (hs : s.Sound) (now : Moment) (owner : Int) (d : Draft) :
    (s.create now owner d).2.file? g =
      if g = s.lastFile + 1 then
        some ⟨Record.ofDraft (s.lastFile + 1) owner d now
          (Record.numberLabels s.lastLabel d.labels), []⟩
      else s.file? g := by
  refine Keyed.find?_append StoredFile.id fun h => ?_
  obtain ⟨f, hf, hid⟩ := List.mem_map.1 h
  have := hs.le_last f hf
  simp only [StoredFile.id, Record.ofDraft] at this hid
  omega

theorem sound_create (hs : s.Sound) (now : Moment) (owner : Int) (d : Draft) :
    (s.create now owner d).2.Sound := by
  refine ⟨Keyed.nodup_append _ hs.nodup fun h => ?_, fun f hf => ?_, fun f hf => ?_⟩
  · obtain ⟨f, hf, hid⟩ := List.mem_map.1 h
    have := hs.le_last f hf
    simp only [StoredFile.id, Record.ofDraft] at this hid
    omega
  · rcases List.mem_append.1 hf with hf | hf
    · have := hs.le_last f hf
      simp only [create]
      omega
    · rw [List.mem_singleton.1 hf]
      exact Int.le_refl _
  · rcases List.mem_append.1 hf with hf | hf
    · exact hs.sorted f hf
    · rw [List.mem_singleton.1 hf]
      exact .nil

theorem creating (hs : s.Sound) (now : Moment) (owner : Int) (d : Draft) :
    Store.Creating s owner d (.ok (s.create now owner d)) := by
  refine .done (r := Record.ofDraft (s.lastFile + 1) owner d now
    (Record.numberLabels s.lastLabel d.labels)) (t := (s.create now owner d).2)
    ⟨rfl, rfl, rfl, rfl, fun _ => rfl, rfl, rfl⟩
    (fun _ => ⟨rfl, rfl, rfl, Record.map_numberLabels _ _⟩) (sound_create hs now owner d) rfl
    (fun g => ?_) (fun g => ?_)
  · rw [ledger_record?, file?_create hs]
    split
    · rw [if_pos ‹_›]
      rfl
    · rw [if_neg ‹_›]
      rfl
  · rw [ledger_rows, ledger_rows, file?_create hs]
    split
    · rename_i hg
      cases h : s.file? g with
      | none => rfl
      | some f =>
        obtain ⟨hf, hid⟩ := mem_of_file? h
        have := hs.le_last f hf
        omega
    · rfl

theorem saving (hs : s.Sound) (file : Int) (index : Nat) (c : Sealed) :
    Store.Saving s file index c (s.save file index c) := by
  unfold save
  split
  · rename_i gone
    exact .missing (ledger_gone gone)
  · rename_i f live
    have found := (live?_eq_some_iff.1 live).1
    have rows_eq : rows s file = f.chunks := by rw [ledger_rows, found]; rfl
    split
    · rename_i there
      refine .twice (ledger_live live) ?_
      rw [rows_eq]
      simpa using there
    · rename_i fresh
      have fresh : ∀ d ∈ f.chunks, d.index ≠ index := by simpa using fresh
      have same : ∀ f : StoredFile, (⟨f.record, insertChunk
        ⟨file, index, c.ciphertext, c.algorithm, c.iv⟩ f.chunks⟩ : StoredFile).id = f.id :=
        fun _ => rfl
      refine .done (ledger_live live) (rows_eq ▸ fresh)
        (changes_update hs same fun e he => ?_) ?_ ?_
      · rw [found] at he
        cases he
        exact pairwise_insertChunk (hs.sorted f (mem_of_file? found).1) fresh
      · rw [ledger_record?, ledger_record?, file?_update same, if_pos rfl, found]
        rfl
      · rw [ledger_rows, file?_update same, if_pos rfl, rows_eq, found]
        exact insertChunk_perm _ _

theorem completing (hs : s.Sound) (file : Int) (bytes : Nat) :
    Store.Completing s file bytes (s.complete file bytes) := by
  unfold complete
  split
  · rename_i gone
    exact .missing (ledger_gone gone)
  · rename_i f live
    have found := (live?_eq_some_iff.1 live).1
    have rows_eq : rows s file = f.chunks := by rw [ledger_rows, found]; rfl
    have filled_iff : f.record.Filled (rows s file) ↔
        (f.chunks.filter (·.index < f.record.totalChunks)).length = f.record.totalChunks ∧
          f.chunks.length = f.record.totalChunks := by
      rw [rows_eq]
      constructor
      · intro h
        rw [List.filter_eq_self.2 fun c hc => decide_eq_true (h.index_lt c hc)]
        exact ⟨h.length_eq, h.length_eq⟩
      · intro ⟨within, all⟩
        refine ⟨all, ?_⟩
        intro c hc
        have := List.length_filter_eq_length_iff.1 (within.trans all.symm) c hc
        simpa using this
    dsimp only
    split
    · rename_i counted
      have same : ∀ f : StoredFile, { f with
          record := { f.record with isComplete := true, originalSize := bytes } }.id = f.id :=
        fun _ => rfl
      refine .done (ledger_live live) (filled_iff.2 counted) (changes_update hs same fun e he => ?_)
        ?_ ?_
      · exact hs.sorted e (mem_of_file? he).1
      · rw [ledger_record?, file?_update same, if_pos rfl, found]
        rfl
      · rw [ledger_rows, file?_update same, if_pos rfl, rows_eq, found]
        rfl
    · rename_i miscounted
      rw [← rows_eq]
      exact .miscounted (ledger_live live) fun h => miscounted (filled_iff.1 h)

theorem deleting (hs : s.Sound) (owner file : Int) :
    Store.Deleting s owner file (s.delete owner file) := by
  unfold delete
  split
  · rename_i f live
    have found := (live?_eq_some_iff.1 live).1
    split
    · rename_i owned
      have same : ∀ f : StoredFile, { f with record := { f.record with isDeleted := true } }.id =
          f.id := fun _ => rfl
      refine .done (ledger_live live) owned (changes_update hs same fun e he => ?_) ?_ ?_
      · exact hs.sorted e (mem_of_file? he).1
      · rw [ledger_record?, file?_update same, if_pos rfl, found]
        rfl
      · rw [ledger_rows, ledger_rows, file?_update same, if_pos rfl, found]
        rfl
    · rename_i foreign
      refine .missing ?_
      intro r hr
      rw [ledger_live live] at hr
      cases hr
      exact foreign
  · rename_i gone
    refine .missing ?_
    intro r hr
    rw [ledger_gone gone] at hr
    cases hr

theorem purging (hs : s.Sound) (file : Int) : Store.Purging s file (s.purge file) := by
  unfold purge
  split
  · have erased : ({ s with files := s.files.filter (·.record.id ≠ file) } : Resident).file? file
        = none := by
      simp [file?, List.find?_eq_none]
    refine .done (changes_erase hs) ?_ ?_
    · rw [ledger_record?, erased]
      rfl
    · rw [ledger_rows, erased]
      rfl
  · rename_i gone
    refine .missing ?_
    rw [ledger_record?, gone]
    rfl

instance : LawfulStore Resident where
  nodup_files hs := hs.nodup
  mem_files_iff hs := by
    rw [ledger_record?, Option.isSome_map]
    exact (Keyed.find?_isSome_iff StoredFile.id).symm
  le_last hs hf := by
    obtain ⟨f, hmem, rfl⟩ := List.mem_map.1 hf
    exact hs.le_last f hmem
  id_eq hs hr := by
    obtain ⟨f, hf, rfl⟩ := Option.map_eq_some_iff.1 hr
    exact (mem_of_file? hf).2
  rows_of_missing hs hr := by
    rw [ledger_rows, Option.map_eq_none_iff.1 hr]
    rfl
  nodup_indices {s file} hs := by
    rw [ledger_rows]
    cases hf : s.file? file with
    | none => exact .nil
    | some f =>
      refine List.pairwise_map.2 ((hs.sorted f (mem_of_file? hf).1).imp fun h => ?_)
      exact Nat.ne_of_lt h
  create now owner d hs := creating hs now owner d
  save file index hs _ := saving hs file index _
  complete file hs _ := completing hs file _
  delete owner file hs := deleting hs owner file
  purge file hs := purging hs file
  info_live {s file r} hs hr := by
    rw [ledger_live?] at hr
    obtain ⟨f, hf, rfl⟩ := Option.map_eq_some_iff.1 hr
    show Resident.info s file f.record.owner = .ok f.record
    simp [Resident.info, hf]
  chunks_known {s file r range} hs hr ordered := by
    obtain ⟨f, hf, rfl⟩ := Option.map_eq_some_iff.1 hr
    refine ⟨f.chunks.filter (·.index ∈ range), ?_, ?_, ?_⟩
    · show Resident.chunks s file range = _
      simp [Resident.chunks, hf, Nat.not_lt.2 ordered]
    · rw [ledger_rows, hf]
      exact .refl _
    · exact ((hs.sorted f (mem_of_file? hf).1).sublist List.filter_sublist).imp Nat.le_of_lt

end Resident

end Strongbox
