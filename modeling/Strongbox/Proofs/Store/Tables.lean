import Strongbox.Proofs.Keyed
import Strongbox.Proofs.Store.Contract
import Strongbox.Proofs.Store.Pattern
import Strongbox.Store.Tables

/-!
# The relational store keeps to its contract
-/

namespace Strongbox

def Draft.texts (d : Draft) : List String :=
  [d.filename, d.mimeType, d.description] ++ d.labels.flatMap fun l => [l.1, l.2]

theorem Draft.mem_texts (d : Draft) :
    d.filename ∈ d.texts ∧ d.mimeType ∈ d.texts ∧ d.description ∈ d.texts := by
  simp [Draft.texts]

/-- No text of the draft has a null character. -/
def Draft.IsPlain (d : Draft) : Prop := ∀ s ∈ d.texts, '\x00' ∉ s.toList

namespace Tables

open Ledger

def row? (t : Tables) (file : Int) : Option FileRow := t.files.find? (·.id = file)

def chunk (file : Int) (r : ChunkRow) : Chunk := ⟨file, r.index, r.data, readText r.algorithm, r.iv⟩

/-- Numbers are given out once, in a row; chunks belong to files, and none is there twice. -/
structure Sound (t : Tables) : Prop where
  nodup : (t.files.map FileRow.id).Nodup
  le_last : ∀ r ∈ t.files, r.id ≤ t.lastFile
  label_le_last : ∀ l ∈ t.labels, l.file ≤ t.lastFile
  owned : ∀ c ∈ t.chunks, c.file ∈ t.files.map FileRow.id
  once : (t.chunks.map fun c => (c.file, c.index)).Nodup

instance : Ledger Tables where
  files t := t.files.map FileRow.id
  record? t file := (t.row? file).map fun r => record r (t.labelsOf file)
  rows t file := (t.chunksOf file).map (chunk file)
  last t := t.lastFile
  Sound := Sound
  Keeps := Draft.IsPlain

theorem sound_empty : Ledger.Sound ({} : Tables) :=
  ⟨List.nodup_nil, nofun, nofun, nofun, List.nodup_nil⟩

variable {t : Tables} {file g owner : Int} {r : FileRow} {change : FileRow → FileRow} {now : Moment}

theorem ledger_record? (t : Tables) (file : Int) :
    Ledger.record? t file = (t.row? file).map fun r => record r (t.labelsOf file) := rfl

theorem ledger_rows (t : Tables) (file : Int) :
    rows t file = (t.chunksOf file).map (chunk file) := rfl

theorem mem_of_row? (h : t.row? file = some r) : r ∈ t.files ∧ r.id = file :=
  Keyed.of_find? FileRow.id h

theorem record?_of_mem (hs : t.Sound) (hr : r ∈ t.files) :
    Ledger.record? t r.id = some (record r (t.labelsOf r.id)) :=
  congrArg (Option.map _) (Keyed.find?_of_mem FileRow.id hs.nodup hr)

theorem live?_eq_some_iff (hs : t.Sound) :
    t.live? file = some r ↔ t.row? file = some r ∧ r.isDeleted = false := by
  have sound : ∀ {r}, t.live? file = some r → t.row? file = some r ∧ r.isDeleted = false := by
    intro r h
    have hr := List.find?_some h
    simp only [Bool.not_eq_true', decide_eq_true_eq] at hr
    exact ⟨hr.1 ▸ Keyed.find?_of_mem FileRow.id hs.nodup (List.mem_of_find?_eq_some h), hr.2⟩
  refine ⟨sound, ?_⟩
  rintro ⟨h, visible⟩
  cases hl : t.live? file with
  | none =>
    have := List.find?_eq_none.1 hl r (mem_of_row? h).1
    simp [(mem_of_row? h).2, visible] at this
  | some e => rw [← h, (sound hl).1]

theorem ledger_live (hs : t.Sound) (h : t.live? file = some r) :
    Ledger.live? t file = some (record r (t.labelsOf file)) := by
  obtain ⟨hr, visible⟩ := (live?_eq_some_iff hs).1 h
  refine Ledger.live?_eq_some_iff.2 ⟨?_, visible⟩
  rw [ledger_record?, hr]
  rfl

theorem ledger_gone (hs : t.Sound) (h : t.live? file = none) : Ledger.live? t file = none := by
  cases hl : Ledger.live? t file with
  | none => rfl
  | some r =>
    obtain ⟨hr, visible⟩ := Ledger.live?_eq_some_iff.1 hl
    obtain ⟨e, he, rfl⟩ := Option.map_eq_some_iff.1 hr
    rw [(live?_eq_some_iff hs).2 ⟨he, visible⟩] at h
    cases h

/-! ## Words and texts -/

theorem signedWord_of_le {n : Nat} (h : n ≤ Word.maxInt64) : (signedWord n).toNat = n := by
  simp only [signedWord, Int.bmod, Word.count64, Word.maxInt64] at *
  omega

theorem originalSize_record {n : Nat} (h : n ≤ Word.maxInt64) (hr : r.originalSize = signedWord n)
    (labels : List Label) : (record r labels).originalSize = n := by
  show r.originalSize.toNat = n
  rw [hr, signedWord_of_le h]

theorem readText_of_plain {s : String} (h : '\x00' ∉ s.toList) : readText s = s := by
  rw [readText, Pattern.visible_of_plain h, String.ofList_toList]

theorem readText_algorithmName : readText algorithmName = algorithmName :=
  readText_of_plain (by decide)

/-! ## Changes of one row -/

def changeLive (file : Int) (change : FileRow → FileRow) (r : FileRow) : FileRow :=
  if r.id = file ∧ !r.isDeleted then change r else r

theorem id_changeLive (same : ∀ r, (change r).id = r.id) (r : FileRow) :
    (changeLive file change r).id = r.id := by
  unfold changeLive
  split <;> simp [same]

theorem row?_update (same : ∀ r, (change r).id = r.id) :
    (t.update file change).row? g = (t.row? g).map (changeLive file change) :=
  Keyed.find?_map FileRow.id (changeLive file change) (id_changeLive same)

theorem row?_update_live (hs : t.Sound) (same : ∀ r, (change r).id = r.id)
    (live : t.live? file = some r) : (t.update file change).row? file = some (change r) := by
  obtain ⟨hr, visible⟩ := (live?_eq_some_iff hs).1 live
  rw [row?_update same, hr, Option.map_some, changeLive,
    if_pos ⟨(mem_of_row? hr).2, by simp [visible]⟩]

theorem row?_update_of_ne (same : ∀ r, (change r).id = r.id) (h : g ≠ file) :
    (t.update file change).row? g = t.row? g := by
  rw [row?_update same]
  cases hr : t.row? g with
  | none => rfl
  | some r => rw [Option.map_some, changeLive, if_neg fun hid => h ((mem_of_row? hr).2 ▸ hid.1)]

theorem changes_update (hs : t.Sound) (same : ∀ r, (change r).id = r.id) :
    Changes file t (t.update file change) where
  sound := by
    have ids : (t.update file change).files.map FileRow.id = t.files.map FileRow.id :=
      Keyed.map_map FileRow.id (id_changeLive same)
    refine ⟨ids ▸ hs.nodup, fun r hr => ?_, hs.label_le_last, fun c hc => ids ▸ hs.owned c hc,
      hs.once⟩
    obtain ⟨e, he, rfl⟩ := List.mem_map.1 hr
    show (changeLive file change e).id ≤ t.lastFile
    rw [id_changeLive same]
    exact hs.le_last e he
  last_eq := rfl
  record_eq g hg := by
    rw [ledger_record?, ledger_record?, row?_update_of_ne same hg]
    rfl
  rows_eq g hg := rfl

/-! ## The operations -/

/-- The labels of other files stay as they are when a file is created. -/
theorem filter_labels_of_ne {pairs : List (String × String)} (hg : g ≠ file) (last : Int) :
    (t.labels ++ labelRows last file pairs).filter (·.file = g) =
      t.labels.filter (·.file = g) := by
  rw [List.filter_append, List.append_right_eq_self, List.filter_eq_nil_iff]
  intro l hl
  obtain ⟨_, _, rfl⟩ := List.mem_map.1 hl
  simpa using Ne.symm hg

/-- The labels of a new file are read back as they were given, with numbers in a row. -/
theorem read_labelRows {pairs : List (String × String)}
    (plain : ∀ p ∈ pairs, readText p.1 = p.1 ∧ readText p.2 = p.2) (last : Int) :
    (labelRows last file pairs).map (fun l => (⟨l.id, readText l.name, readText l.value⟩ : Label)) =
      Record.numberLabels last pairs := by
  rw [labelRows]
  induction pairs generalizing last with
  | nil => rfl
  | cons p rest ih =>
    have hp := plain p List.mem_cons_self
    simp only [Record.numberLabels, List.map_cons, hp]
    rw [ih fun q hq => plain q (.tail _ hq)]

/-- The labels of a new file are those of its draft, numbered in a row. -/
theorem labelsOf_create (hs : t.Sound) {d : Draft} (plain : d.IsPlain) :
    (t.create now owner d).2.labelsOf (t.lastFile + 1) =
      Record.numberLabels t.lastLabel d.labels := by
  have old : t.labels.filter (·.file = t.lastFile + 1) = [] := by
    rw [List.filter_eq_nil_iff]
    intro l hl
    have := hs.label_le_last l hl
    simp only [decide_eq_true_eq]
    omega
  have added : (labelRows t.lastLabel (t.lastFile + 1) d.labels).filter
      (·.file = t.lastFile + 1) = labelRows t.lastLabel (t.lastFile + 1) d.labels := by
    rw [List.filter_eq_self]
    intro l hl
    obtain ⟨_, _, rfl⟩ := List.mem_map.1 hl
    exact decide_eq_true rfl
  have texts : ∀ p ∈ d.labels, readText p.1 = p.1 ∧ readText p.2 = p.2 := by
    intro p hp
    have hmem : p.1 ∈ d.texts ∧ p.2 ∈ d.texts := by
      simp only [Draft.texts, List.mem_append, List.mem_flatMap]
      exact ⟨.inr ⟨p, hp, by simp⟩, .inr ⟨p, hp, by simp⟩⟩
    exact ⟨readText_of_plain (plain _ hmem.1), readText_of_plain (plain _ hmem.2)⟩
  simp only [create, labelsOf]
  rw [List.filter_append, old, added, List.nil_append]
  exact read_labelRows texts t.lastLabel

theorem fresh_file (hs : t.Sound) : t.lastFile + 1 ∉ t.files.map FileRow.id := by
  intro h
  obtain ⟨r, hr, hid⟩ := List.mem_map.1 h
  have := hs.le_last r hr
  omega

theorem sound_create (hs : t.Sound) (now : Moment) (owner : Int) (d : Draft) :
    (t.create now owner d).2.Sound where
  nodup := Keyed.nodup_append FileRow.id hs.nodup (fresh_file hs)
  le_last r hr := by
    rcases List.mem_append.1 hr with hr | hr
    · have := hs.le_last r hr
      simp only [create]
      omega
    · rw [List.mem_singleton.1 hr]
      exact Int.le_refl _
  label_le_last l hl := by
    rcases List.mem_append.1 hl with hl | hl
    · have := hs.label_le_last l hl
      simp only [create]
      omega
    · obtain ⟨_, _, rfl⟩ := List.mem_map.1 hl
      exact Int.le_refl _
  owned c hc := by
    simp only [create, List.map_append]
    exact List.mem_append_left _ (hs.owned c hc)
  once := hs.once

def newRow (t : Tables) (now : Moment) (owner : Int) (d : Draft) : FileRow where
  id := t.lastFile + 1
  owner := owner
  filename := d.filename
  mimeType := d.mimeType
  originalSize := signedWord d.originalSize
  description := d.description
  chunkSize := d.chunkSize
  totalChunks := d.totalChunks
  isComplete := false
  isDeleted := false
  createdAt := now.seconds

theorem row?_create (hs : t.Sound) (d : Draft) :
    (t.create now owner d).2.row? g =
      if g = t.lastFile + 1 then some (t.newRow now owner d) else t.row? g :=
  Keyed.find?_append (a := t.newRow now owner d) FileRow.id (fresh_file hs)

theorem isNew_create (now : Moment) (labels : List Label) (d : Draft) :
    (record (t.newRow now owner d) labels).IsNew (t.lastFile + 1) owner d where
  id_eq := rfl
  owner_eq := rfl
  chunkSize_eq := rfl
  totalChunks_eq := rfl
  originalSize_eq h := originalSize_record h (by rw [newRow]) labels
  incomplete := rfl
  visible := rfl

theorem tells_create (hs : t.Sound) {d : Draft} (plain : d.IsPlain) :
    (record (t.newRow now owner d)
      ((t.create now owner d).2.labelsOf (t.lastFile + 1))).Tells d where
  filename_eq := readText_of_plain (plain _ d.mem_texts.1)
  mimeType_eq := readText_of_plain (plain _ d.mem_texts.2.1)
  description_eq := readText_of_plain (plain _ d.mem_texts.2.2)
  labels_eq := by
    rw [labelsOf_create hs plain]
    exact Record.map_numberLabels t.lastLabel d.labels

theorem creating (hs : t.Sound) (now : Moment) (owner : Int) (d : Draft) :
    Store.Creating t owner d (.ok (t.create now owner d)) := by
  refine .done (t := (t.create now owner d).2) (isNew_create now _ d) (tells_create hs)
    (sound_create hs now owner d) rfl (fun g => ?_) (fun g => ?_)
  · show ((t.create now owner d).2.row? g).map _ = if g = t.lastFile + 1 then _ else _
    rw [row?_create hs]
    split
    · rename_i hg
      rw [hg]
      rfl
    · rename_i hg
      rw [ledger_record?]
      simp only [create, labelsOf, filter_labels_of_ne hg]
  · rfl

theorem rows_eq_nil_iff : rows t file = [] ↔ ∀ c ∈ t.chunks, c.file ≠ file := by
  simp [ledger_rows, chunksOf, List.filter_eq_nil_iff]

theorem sound_save (hs : t.Sound) (live : t.live? file = some r) {c : ChunkRow}
    (hfile : c.file = file) (fresh : ∀ d ∈ t.chunksOf file, d.index ≠ c.index) :
    ({ t with chunks := t.chunks ++ [c] } : Tables).Sound where
  nodup := hs.nodup
  le_last := hs.le_last
  label_le_last := hs.label_le_last
  owned d hd := by
    rcases List.mem_append.1 hd with hd | hd
    · exact hs.owned d hd
    · rw [List.mem_singleton.1 hd, hfile]
      obtain ⟨hr, hid⟩ := mem_of_row? ((live?_eq_some_iff hs).1 live).1
      exact hid ▸ List.mem_map_of_mem hr
  once := by
    rw [List.map_append, List.nodup_append]
    refine ⟨hs.once, by simp, ?_⟩
    intro x hx y hy e
    obtain ⟨d, hd, rfl⟩ := List.mem_map.1 hx
    rw [List.map_singleton, List.mem_singleton] at hy
    rw [hy] at e
    have he := Prod.mk.inj e
    exact fresh d (List.mem_filter.2 ⟨hd, by simp [he.1, hfile]⟩) he.2

theorem chunksOf_save {c : ChunkRow} :
    ({ t with chunks := t.chunks ++ [c] } : Tables).chunksOf g =
      if g = c.file then t.chunksOf g ++ [c] else t.chunksOf g := by
  simp only [chunksOf, List.filter_append]
  split
  · rename_i hg
    simp [hg]
  · rename_i hg
    simp [Ne.symm hg]

/-- The name of the algorithm of a chunk is read back up to its first null character. -/
theorem saving (hs : t.Sound) (file : Int) (index : Nat) (c : Sealed) :
    Store.Saving t file index { c with algorithm := readText c.algorithm }
      (t.save file index c) := by
  unfold save
  split
  · rename_i gone
    exact .missing (ledger_gone hs gone)
  · rename_i r live
    split
    · rename_i there
      refine .twice (ledger_live hs live) ?_
      obtain ⟨d, hd, hindex⟩ := List.any_eq_true.1 there
      exact ⟨chunk file d, List.mem_map_of_mem hd, of_decide_eq_true hindex⟩
    · rename_i fresh
      have fresh : ∀ d ∈ t.chunksOf file, d.index ≠ index := by simpa using fresh
      refine .done (ledger_live hs live) ?_ ⟨sound_save hs live rfl fresh, rfl, fun _ _ => rfl,
        fun g hg => ?_⟩ rfl ?_
      · rw [ledger_rows]
        simpa [chunk] using fresh
      · rw [ledger_rows, chunksOf_save, if_neg hg, ledger_rows]
      · rw [ledger_rows, chunksOf_save, if_pos rfl, ledger_rows, List.map_append]
        exact List.perm_append_singleton _ _

theorem completing (hs : t.Sound) (file : Int) (bytes : Nat) :
    Store.Completing t file (signedWord bytes).toNat (t.complete file bytes) := by
  unfold complete
  -- A word is a large computation, and only the number that it holds matters here.
  generalize signedWord bytes = n
  split
  · rename_i gone
    exact .missing (ledger_gone hs gone)
  · rename_i r live
    have length_eq : (rows t file).length = (t.chunksOf file).length := List.length_map _
    have filled_iff : (record r (t.labelsOf file)).Filled (rows t file) ↔
        (t.chunksOf file).length = r.totalChunks ∧
          ((t.chunksOf file).filter (·.index < r.totalChunks)).length = r.totalChunks := by
      constructor
      · intro h
        have within : ∀ c ∈ t.chunksOf file, decide (c.index < r.totalChunks) = true :=
          fun c hc => decide_eq_true (h.index_lt _ (List.mem_map_of_mem hc))
        rw [List.filter_eq_self.2 within]
        exact ⟨length_eq ▸ h.length_eq, length_eq ▸ h.length_eq⟩
      · intro ⟨all, within⟩
        refine ⟨length_eq.trans all, ?_⟩
        intro c hc
        obtain ⟨d, hd, rfl⟩ := List.mem_map.1 hc
        have := List.length_filter_eq_length_iff.1 (within.trans all.symm) d hd
        exact of_decide_eq_true this
    dsimp only
    split
    · rename_i counted
      have same : ∀ r : FileRow, { r with isComplete := true, originalSize := n }.id = r.id :=
        fun _ => rfl
      refine .done (ledger_live hs live) (filled_iff.2 counted) (changes_update hs same) ?_ rfl
      rw [ledger_record?, row?_update_live hs same live]
      rfl
    · rename_i miscounted
      rw [← length_eq]
      exact .miscounted (r := record r (t.labelsOf file)) (ledger_live hs live)
        fun h => miscounted (filled_iff.1 h)

theorem deleting (hs : t.Sound) (owner file : Int) :
    Store.Deleting t owner file (t.delete owner file) := by
  unfold delete
  split
  · rename_i r live
    split
    · rename_i owned
      have same : ∀ r : FileRow, { r with isDeleted := true }.id = r.id := fun _ => rfl
      refine .done (ledger_live hs live) owned (changes_update hs same) ?_ rfl
      rw [ledger_record?, row?_update_live hs same live]
      rfl
    · rename_i foreign
      refine .missing ?_
      intro e he
      rw [ledger_live hs live] at he
      cases he
      exact foreign
  · rename_i gone
    refine .missing ?_
    intro e he
    rw [ledger_gone hs gone] at he
    cases he

def without (t : Tables) (file : Int) : Tables :=
  { t with files := t.files.filter (·.id ≠ file), chunks := t.chunks.filter (·.file ≠ file)
           labels := t.labels.filter (·.file ≠ file) }

theorem row?_without (t : Tables) (file g : Int) :
    (t.without file).row? g = if g = file then none else t.row? g :=
  Keyed.find?_filter_ne FileRow.id

theorem sound_without (hs : t.Sound) (file : Int) : (t.without file).Sound where
  nodup := Keyed.nodup_filter FileRow.id hs.nodup
  le_last r hr := hs.le_last r (List.mem_filter.1 hr).1
  label_le_last l hl := hs.label_le_last l (List.mem_filter.1 hl).1
  owned c hc := by
    obtain ⟨hc, hne⟩ := List.mem_filter.1 hc
    obtain ⟨r, hr, hid⟩ := List.mem_map.1 (hs.owned c hc)
    refine List.mem_map.2 ⟨r, List.mem_filter.2 ⟨hr, ?_⟩, hid⟩
    rw [hid]
    exact hne
  once := hs.once.sublist (List.filter_sublist.map _)

theorem filter_filter_ne {α : Type} (key : α → Int) (l : List α) :
    (l.filter fun a => key a ≠ file).filter (fun a => key a = g) =
      if g = file then [] else l.filter fun a => key a = g := by
  rw [List.filter_filter]
  split
  · rename_i h
    rw [List.filter_eq_nil_iff]
    simp [h]
  · rename_i h
    apply List.filter_congr
    intro a _
    by_cases e : key a = g <;> simp [e, h]

theorem purging (hs : t.Sound) (file : Int) : Store.Purging t file (t.purge file) := by
  unfold purge
  split
  · refine .done (t := t.without file) ⟨sound_without hs file, rfl, fun g hg => ?_, fun g hg => ?_⟩
      ?_ ?_
    · rw [ledger_record?, ledger_record?, row?_without, if_neg hg]
      simp only [labelsOf, without, filter_filter_ne LabelRow.file, if_neg hg]
    · simp only [ledger_rows, chunksOf, without, filter_filter_ne ChunkRow.file, if_neg hg]
    · rw [ledger_record?, row?_without, if_pos rfl]
      rfl
    · simp only [ledger_rows, chunksOf, without, filter_filter_ne ChunkRow.file, if_pos]
      rfl
  · rename_i gone
    refine .missing ?_
    have : t.row? file = none := by simpa [row?, List.find?_eq_none] using gone
    rw [ledger_record?, this]
    rfl

theorem chunks_range (t : Tables) (file : Int) (range : Span) :
    (t.range file range).Perm ((rows t file).filter (·.index ∈ range)) ∧
      (t.range file range).Pairwise (·.index ≤ ·.index) := by
  constructor
  · rw [ledger_rows, List.filter_map]
    exact (List.mergeSort_perm _ _).map _
  · have sorted (l : List ChunkRow) : (l.mergeSort fun a b => a.index ≤ b.index).Pairwise
        fun a b => decide (a.index ≤ b.index) = true := by
      refine List.pairwise_mergeSort (fun a b c => ?_) (fun a b => ?_) l
      · simp only [decide_eq_true_eq]
        exact Nat.le_trans
      · simp only [Bool.or_eq_true, decide_eq_true_eq]
        exact Nat.le_total _ _
    exact List.pairwise_map.2 ((sorted _).imp of_decide_eq_true)

instance : LawfulStore Tables where
  nodup_files hs := hs.nodup
  mem_files_iff hs := by
    rw [ledger_record?, Option.isSome_map]
    exact (Keyed.find?_isSome_iff FileRow.id).symm
  le_last hs hf := by
    obtain ⟨r, hr, rfl⟩ := List.mem_map.1 hf
    exact hs.le_last r hr
  id_eq hs hr := by
    obtain ⟨r, found, rfl⟩ := Option.map_eq_some_iff.1 hr
    exact (mem_of_row? found).2
  rows_of_missing {t file} hs hr := by
    rw [rows_eq_nil_iff]
    intro c hc hfile
    have := (Keyed.find?_isSome_iff FileRow.id).2 (hfile ▸ hs.owned c hc)
    rw [show t.files.find? (fun r => r.id = file) = none from Option.map_eq_none_iff.1 hr] at this
    cases this
  nodup_indices {t file} hs := by
    rw [ledger_rows, List.map_map]
    refine List.pairwise_map.2 ((List.pairwise_map.1 hs.once).sublist List.filter_sublist
      |>.imp_of_mem fun {a b} ha hb h e => ?_)
    have ha := of_decide_eq_true (List.mem_filter.1 ha).2
    have hb := of_decide_eq_true (List.mem_filter.1 hb).2
    exact h (by rw [ha, hb, show a.index = b.index from e])
  create now owner d hs := creating hs now owner d
  save {t c} file index hs known := by
    have outcome := saving hs file index c
    rw [known, readText_algorithmName, ← known] at outcome
    exact outcome
  complete {t bytes} file hs small := by
    have outcome := completing hs file bytes
    rw [signedWord_of_le small] at outcome
    exact outcome
  delete owner file hs := deleting hs owner file
  purge file hs := purging hs file
  info_live {t file r} hs hr := by
    obtain ⟨hr, visible⟩ := Ledger.live?_eq_some_iff.1 hr
    obtain ⟨e, he, rfl⟩ := Option.map_eq_some_iff.1 hr
    show Tables.info t file e.owner = _
    simp [Tables.info, (live?_eq_some_iff hs).2 ⟨he, visible⟩]
  chunks_known {t file r range} _ _ _ := ⟨t.range file range, rfl, chunks_range t file range⟩

end Tables

end Strongbox
