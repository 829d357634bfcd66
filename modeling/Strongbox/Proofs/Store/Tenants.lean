import Strongbox.Proofs.Store.Confined

/-!
# Stores narrowed to one owner

What an owner sees and does is the same in a store without the files of all others.
-/

namespace Strongbox

/-- A store that can be narrowed to one owner. -/
class Narrow (σ : Type) where
  /-- The store without the files of all others. The last numbers given out stay. -/
  only : (owner : Int) → σ → σ

open Narrow

namespace Ledger

variable {σ : Type} [Ledger σ]

/-- The file belongs to a user, if it is there. -/
def Belongs (user file : Int) (s : σ) : Prop := ∀ r, record? s file = some r → r.owner = user

/-- The user has no such file, or has deleted it. -/
def Hidden (user file : Int) (s : σ) : Prop := ∀ r, live? s file = some r → r.owner ≠ user

end Ledger

open Ledger in
/-- A store that can be narrowed to an owner: nothing of the owner's files is lost, and nothing is
left of other files. What the owner does comes to the same in either. -/
class NarrowStore (σ : Type) [Store σ] [Ledger σ] [Labelled σ] [Narrow σ] : Prop where
  sound {s : σ} {user : Int} : Sound s → Sound (only user s)
  last_eq {s : σ} {user : Int} : last (only user s) = last s
  alike {s : σ} {file user : Int} {r : Record} : Sound s → record? s file = some r →
    r.owner = user → Alike file s (only user s)
  gone {s : σ} {user file : Int} : Sound s → (∀ r, record? s file = some r → r.owner ≠ user) →
    Gone file (only user s)
  create {s : σ} {user : Int} {now : Moment} {d : Draft} : Sound s →
    Store.create (only user s) now user d =
      (Store.create s now user d).map fun (file, t) => (file, only user t)
  save {s : σ} {user file : Int} {index : Nat} {c : Sealed} : Sound s → Belongs user file s →
    Store.save (only user s) file index c = (Store.save s file index c).map (only user)
  complete {s : σ} {user file : Int} {bytes : Nat} : Sound s → Belongs user file s →
    Store.complete (only user s) file bytes = (Store.complete s file bytes).map (only user)
  purge {s : σ} {user file : Int} : Sound s → Belongs user file s →
    Store.purge (only user s) file = (Store.purge s file).map (only user)
  delete {s : σ} {user file : Int} : Sound s →
    Store.delete (only user s) user file = (Store.delete s user file).map (only user)
  info {s : σ} {user file : Int} : Sound s →
    Store.info (only user s) file user = Store.info s file user
  chunks {s : σ} {user file : Int} {range : Span} : Sound s → Belongs user file s →
    Store.chunks (only user s) file range = Store.chunks s file range
  list {s : σ} {user : Int} {q : Query} : Sound s →
    Store.list (only user s) user q = Store.list s user q

open Ledger in
/-- A store that tells a user nothing of files that are not there for that user. -/
class DiscreetStore (σ : Type) [Store σ] [Ledger σ] : Prop where
  info_hidden {s : σ} {user file : Int} : Sound s → Hidden user file s →
    Store.info s file user = .error .notFound

open Ledger in
/-- What is told of a file is its record, and it is told to its owner. -/
theorem DiscreetStore.live_of_info {σ : Type} [Store σ] [Ledger σ] [LawfulStore σ] [DiscreetStore σ]
    {s : σ} {user file : Int} {r : Record} (sound : Sound s) (h : Store.info s file user = .ok r) :
    live? s file = some r ∧ r.owner = user := by
  by_cases hidden : Hidden user file s
  · rw [DiscreetStore.info_hidden sound hidden] at h
    cases h
  · simp only [Hidden, Classical.not_forall, Decidable.not_not] at hidden
    obtain ⟨e, live, rfl⟩ := hidden
    cases (LawfulStore.info_live sound live).symm.trans h
    exact ⟨live, rfl⟩

theorem Keyed.find?_filter {α κ : Type} [DecidableEq κ] (key : α → κ) {l : List α} {k : κ}
    (p : α → Bool) (nodup : (l.map key).Nodup) :
    (l.filter p).find? (fun a => key a = k) = (l.find? fun a => key a = k).filter p := by
  induction l with
  | nil => rfl
  | cons a rest ih =>
    simp only [List.map_cons, List.nodup_cons] at nodup
    by_cases hk : key a = k
    · have others : (rest.filter p).find? (fun a => key a = k) = none := by
        rw [List.find?_eq_none]
        intro b hb hbk
        exact nodup.1 (hk ▸ of_decide_eq_true hbk ▸ List.mem_map_of_mem (List.mem_filter.1 hb).1)
      by_cases hp : p a = true
      · simp [hk, hp, Option.filter]
      · simpa [hk, hp, Option.filter] using others
    · by_cases hp : p a = true
      · simpa [hk, hp] using ih nodup.2
      · simpa [hk, hp] using ih nodup.2

open Ledger

/-! ## The resident store -/

namespace Resident

instance : Narrow Resident where
  only user s := { s with files := s.files.filter (·.record.owner = user) }

variable {s : Resident} {user file : Int} {f : StoredFile} {change : StoredFile → StoredFile}

theorem file?_only (hs : s.Sound) :
    (only user s).file? file = (s.file? file).filter (·.record.owner = user) :=
  Keyed.find?_filter StoredFile.id _ hs.nodup

theorem file?_only_of_belongs (hs : s.Sound) (own : Belongs user file s) :
    (only user s).file? file = s.file? file := by
  rw [file?_only hs]
  cases hf : s.file? file with
  | none => rfl
  | some f =>
    have owned : f.record.owner = user := own f.record (by rw [ledger_record?, hf]; rfl)
    simp [Option.filter, owned]

theorem live?_only (hs : s.Sound) :
    (only user s).live? file = (s.live? file).filter (·.record.owner = user) := by
  rw [Resident.live?, file?_only hs, Resident.live?, Option.filter_filter, Option.filter_filter]
  simp only [Bool.and_comm]

theorem live?_only_of_belongs (hs : s.Sound) (own : Belongs user file s) :
    (only user s).live? file = s.live? file := by
  rw [Resident.live?, file?_only_of_belongs hs own, Resident.live?]

/-- Changing a file and narrowing the store come to the same in either order. -/
theorem update_only (same : ∀ f, (change f).record.owner = f.record.owner) :
    (only user s).update file change = only user (s.update file change) := by
  simp only [only, Resident.update, List.filter_map]
  congr 2
  apply List.filter_congr
  intro f _
  simp only [Function.comp_apply]
  split <;> simp [same]

theorem alike_only (hs : s.Sound) {r : Record} (hr : Ledger.record? s file = some r)
    (owned : r.owner = user) : Alike file s (only user s) := by
  have own : Belongs user file s := by
    intro e he
    cases hr.symm.trans he
    exact owned
  have record_eq : Ledger.record? (only user s) file = Ledger.record? s file := by
    rw [ledger_record?, ledger_record?, file?_only_of_belongs hs own]
  refine ⟨record_eq, ?_, by rw [labels_eq, labels_eq, record_eq]⟩
  rw [ledger_rows, ledger_rows, file?_only_of_belongs hs own]

theorem gone_only (hs : s.Sound) (foreign : ∀ r, Ledger.record? s file = some r → r.owner ≠ user) :
    Gone file (only user s) := by
  have missing : (only user s).file? file = none := by
    rw [file?_only hs, Option.filter_eq_none_iff]
    intro f hf
    simpa using foreign f.record (by rw [ledger_record?, hf]; rfl)
  have record_eq : Ledger.record? (only user s) file = none := by rw [ledger_record?, missing]; rfl
  exact ⟨record_eq, by rw [ledger_rows, missing]; rfl, by rw [labels_eq, record_eq]; rfl⟩

instance : NarrowStore Resident where
  sound hs := ⟨Keyed.nodup_filter _ hs.nodup, fun f hf => hs.le_last f (List.mem_filter.1 hf).1,
    fun f hf => hs.sorted f (List.mem_filter.1 hf).1⟩
  last_eq := rfl
  alike hs := alike_only hs
  gone hs := gone_only hs
  create {s user now d} hs := by
    simp [Store.create, Resident.create, only, Except.map, List.filter_append, Record.ofDraft]
  save {s user file index c} hs own := by
    simp only [Store.save, Resident.save, live?_only_of_belongs hs own]
    split
    · rfl
    · split
      · rfl
      · refine congrArg Except.ok (update_only ?_)
        exact fun _ => rfl
  complete {s user file bytes} hs own := by
    simp only [Store.complete, Resident.complete, live?_only_of_belongs hs own]
    split
    · rfl
    · split
      · refine congrArg Except.ok (update_only ?_)
        exact fun _ => rfl
      · rfl
  purge {s user file} hs own := by
    simp only [Store.purge, Resident.purge, file?_only_of_belongs hs own]
    split
    · simp only [only, Except.map, List.filter_filter, Bool.and_comm]
    · rfl
  delete {s user file} hs := by
    simp only [Store.delete, Resident.delete, live?_only hs]
    cases hf : s.live? file with
    | none => rfl
    | some f =>
      by_cases owned : f.record.owner = user
      · simp only [Option.filter, owned, decide_true, if_true]
        refine congrArg Except.ok (update_only ?_)
        exact fun _ => rfl
      · simp [Option.filter, owned, Except.map]
  info {s user file} hs := by
    simp only [Store.info, Resident.info, live?_only hs]
    cases hf : s.live? file with
    | none => rfl
    | some f => by_cases owned : f.record.owner = user <;> simp [Option.filter, owned]
  chunks {s user file range} hs own := by
    simp only [Store.chunks, Resident.chunks, file?_only_of_belongs hs own]
  list {s user q} hs := by
    have hits_eq : (only user s).hits user q = s.hits user q := by
      simp only [hits, only]
      congr 1
      rw [List.filter_map, List.filter_map, List.filter_filter]
      congr 1
      apply List.filter_congr
      intro f _
      simp only [Function.comp_apply]
      by_cases owned : f.record.owner = user <;> simp [owned]
    simp only [Store.list, Resident.list, hits_eq]

instance : DiscreetStore Resident where
  info_hidden {s user file} hs hidden := by
    simp only [Store.info, Resident.info]
    split
    · rename_i f live
      exact if_neg (hidden _ (ledger_live live))
    · rfl

end Resident

/-! ## The relational store -/

namespace Tables

def owns (t : Tables) (user file : Int) : Bool :=
  t.files.any fun r => r.id = file && r.owner = user

instance : Narrow Tables where
  only user t := { t with
    files := t.files.filter (·.owner = user)
    chunks := t.chunks.filter fun c => t.owns user c.file
    labels := t.labels.filter fun l => t.owns user l.file }

variable {t : Tables} {user file : Int} {r : FileRow} {change : FileRow → FileRow}

theorem live?_eq (hs : t.Sound) (file : Int) :
    t.live? file = (t.row? file).filter (!·.isDeleted) := by
  ext r
  rw [live?_eq_some_iff hs, Option.filter_eq_some_iff, Bool.not_eq_true']

theorem row?_only (hs : t.Sound) :
    (only user t).row? file = (t.row? file).filter (·.owner = user) :=
  Keyed.find?_filter FileRow.id _ hs.nodup

theorem owns_iff (hs : t.Sound) :
    t.owns user file = true ↔ ∃ r, t.row? file = some r ∧ r.owner = user := by
  simp only [owns, List.any_eq_true, Bool.and_eq_true, decide_eq_true_eq]
  constructor
  · rintro ⟨r, hr, rfl, owned⟩
    exact ⟨r, Keyed.find?_of_mem FileRow.id hs.nodup hr, owned⟩
  · rintro ⟨r, hr, owned⟩
    obtain ⟨hmem, hid⟩ := mem_of_row? hr
    exact ⟨r, hmem, hid, owned⟩

theorem sound_only (hs : t.Sound) (user : Int) : (only user t).Sound where
  nodup := Keyed.nodup_filter FileRow.id hs.nodup
  le_last r hr := hs.le_last r (List.mem_filter.1 hr).1
  label_le_last l hl := hs.label_le_last l (List.mem_filter.1 hl).1
  owned c hc := by
    obtain ⟨r, hr, owned⟩ := (owns_iff hs).1 (List.mem_filter.1 hc).2
    obtain ⟨hmem, hid⟩ := mem_of_row? hr
    exact hid ▸ List.mem_map_of_mem (List.mem_filter.2 ⟨hmem, by simpa using owned⟩)
  once := hs.once.sublist (List.filter_sublist.map _)

theorem row?_of_belongs (own : Belongs user file t) (hr : t.row? file = some r) :
    r.owner = user :=
  own (record r (t.labelsOf file)) (by rw [ledger_record?, hr]; rfl)

theorem row?_only_of_belongs (hs : t.Sound) (own : Belongs user file t) :
    (only user t).row? file = t.row? file := by
  rw [row?_only hs]
  cases hr : t.row? file with
  | none => rfl
  | some r => simp [Option.filter, row?_of_belongs own hr]

theorem live?_only (hs : t.Sound) :
    (only user t).live? file = (t.live? file).filter (·.owner = user) := by
  rw [live?_eq (sound_only hs user), row?_only hs, live?_eq hs, Option.filter_filter,
    Option.filter_filter]
  simp only [Bool.and_comm]

theorem live?_only_of_belongs (hs : t.Sound) (own : Belongs user file t) :
    (only user t).live? file = t.live? file := by
  rw [live?_eq (sound_only hs user), row?_only_of_belongs hs own, live?_eq hs]

theorem chunksOf_only (hs : t.Sound) (own : Belongs user file t) :
    (only user t).chunksOf file = t.chunksOf file := by
  simp only [chunksOf, only, List.filter_filter]
  apply List.filter_congr
  intro c hc
  by_cases hfile : c.file = file
  · obtain ⟨r, hr⟩ := Option.isSome_iff_exists.1
      ((Keyed.find?_isSome_iff FileRow.id).2 (hfile ▸ hs.owned c hc))
    simp [hfile, (owns_iff hs).2 ⟨r, hr, row?_of_belongs own hr⟩]
  · simp [hfile]

theorem filter_labels_only (owned : t.owns user file = true) :
    (only user t).labels.filter (·.file = file) = t.labels.filter (·.file = file) := by
  simp only [only, List.filter_filter]
  apply List.filter_congr
  intro l _
  by_cases hfile : l.file = file <;> simp [hfile, owned]

theorem labelsOf_only (owned : t.owns user file = true) :
    (only user t).labelsOf file = t.labelsOf file := by
  rw [labelsOf, filter_labels_only owned, labelsOf]

/-- Changing a file and narrowing the store come to the same in either order. -/
theorem update_only (same : ∀ r, (change r).id = r.id ∧ (change r).owner = r.owner) :
    (only user t).update file change = only user (t.update file change) := by
  have owns_eq : ∀ g, (t.update file change).owns user g = t.owns user g := by
    intro g
    simp only [owns, Tables.update, List.any_map]
    congr 1
    funext r
    simp only [Function.comp_apply]
    split <;> simp [same]
  simp only [only, owns_eq]
  simp only [Tables.update, List.filter_map]
  congr 2
  apply List.filter_congr
  intro r _
  simp only [Function.comp_apply]
  split <;> simp [same]

theorem eq_of_parts {t u : Tables} (files : t.files = u.files) (chunks : t.chunks = u.chunks)
    (labels : t.labels = u.labels) (lastFile : t.lastFile = u.lastFile)
    (lastLabel : t.lastLabel = u.lastLabel) : t = u := by
  cases t
  cases u
  exact Tables.mk.injEq .. ▸ ⟨files, chunks, labels, lastFile, lastLabel⟩

/-- A new file is its owner's, and the others stay whose they were. -/
theorem owns_create (t : Tables) (now : Moment) (d : Draft) (g : Int) :
    (t.create now user d).2.owns user g = if g = t.lastFile + 1 then true else t.owns user g := by
  simp only [owns, Tables.create, List.any_append, List.any_cons, List.any_nil, decide_true]
  split
  · rename_i hg
    simp [hg]
  · rename_i hg
    simp [Ne.symm hg]

theorem create_only (hs : t.Sound) (now : Moment) (d : Draft) :
    only user (t.create now user d).2 = ((only user t).create now user d).2 := by
  refine eq_of_parts ?_ ?_ ?_ rfl rfl
  · simp [only, Tables.create, List.filter_append]
  · apply List.filter_congr
    intro c hc
    rw [owns_create, if_neg]
    intro old
    exact fresh_file hs (old ▸ hs.owned c hc)
  · have kept : (t.labels.filter fun l => (t.create now user d).2.owns user l.file) =
        t.labels.filter fun l => t.owns user l.file := by
      apply List.filter_congr
      intro l hl
      have := hs.label_le_last l hl
      rw [owns_create, if_neg (by omega)]
    have added : (labelRows t.lastLabel (t.lastFile + 1) d.labels).filter
        (fun l => (t.create now user d).2.owns user l.file) =
          labelRows t.lastLabel (t.lastFile + 1) d.labels := by
      rw [List.filter_eq_self]
      intro l hl
      obtain ⟨_, _, rfl⟩ := List.mem_map.1 hl
      rw [owns_create, if_pos rfl]
    show (t.labels ++ labelRows t.lastLabel (t.lastFile + 1) d.labels).filter _ = _
    rw [List.filter_append, kept, added]
    rfl

/-- Other files stay whose they were when a file is forgotten. -/
theorem owns_without {g : Int} (hg : g ≠ file) : (t.without file).owns user g = t.owns user g := by
  simp only [owns, without, List.any_filter]
  congr 1
  funext r
  by_cases hid : r.id = g <;> simp [hid, hg]

/-- Forgetting a file and narrowing the store come to the same in either order, for all that belongs
to files. -/
theorem filter_without {α : Type} (key : α → Int) (l : List α) :
    (l.filter fun a => key a ≠ file).filter (fun a => (t.without file).owns user (key a)) =
      (l.filter fun a => t.owns user (key a)).filter fun a => key a ≠ file := by
  rw [List.filter_filter, List.filter_filter]
  apply List.filter_congr
  intro a _
  by_cases ha : key a = file
  · simp [ha]
  · simp [ha, owns_without ha]

theorem without_only : (only user t).without file = only user (t.without file) := by
  refine eq_of_parts ?_ (filter_without ChunkRow.file t.chunks).symm
    (filter_without LabelRow.file t.labels).symm rfl rfl
  simp only [only, without, List.filter_filter, Bool.and_comm]

instance : NarrowStore Tables where
  sound hs := sound_only hs _
  last_eq := rfl
  alike {t file user r} hs hr owned := by
    have own : Belongs user file t := by
      intro e he
      cases hr.symm.trans he
      exact owned
    obtain ⟨e, he, rfl⟩ := Option.map_eq_some_iff.1 hr
    have labels_eq' := labelsOf_only ((owns_iff hs).2 ⟨e, he, owned⟩)
    refine ⟨?_, ?_, labels_eq'⟩
    · rw [ledger_record?, row?_only_of_belongs hs own, labels_eq', ledger_record?]
    · rw [ledger_rows, chunksOf_only hs own, ledger_rows]
  gone {t user file} hs foreign := by
    have others : ∀ r, t.row? file = some r → r.owner ≠ user := fun r hr =>
      foreign (record r (t.labelsOf file)) (by rw [ledger_record?, hr]; rfl)
    have missing : t.owns user file = false := by
      rw [← Bool.not_eq_true, owns_iff hs]
      rintro ⟨r, hr, owned⟩
      exact others r hr owned
    refine ⟨?_, ?_, ?_⟩
    · rw [ledger_record?, row?_only hs, Option.map_eq_none_iff, Option.filter_eq_none_iff]
      intro r hr
      simpa using others r hr
    · rw [rows_eq_nil_iff]
      rintro c hc rfl
      have owned := (List.mem_filter.1 hc).2
      rw [missing] at owned
      cases owned
    · rw [labels_eq, labelsOf, List.map_eq_nil_iff, List.filter_eq_nil_iff]
      intro l hl hfile
      have owned := (List.mem_filter.1 hl).2
      rw [of_decide_eq_true hfile, missing] at owned
      cases owned
  create {t user now d} hs := by
    simp only [Store.create, Except.map, create_only hs]
    rfl
  save {t user file index c} hs own := by
    simp only [Store.save, Tables.save, live?_only_of_belongs hs own, chunksOf_only hs own]
    split
    · rfl
    · rename_i r live
      split
      · rfl
      · have owned : t.owns user file = true := by
          obtain ⟨hr, -⟩ := (live?_eq_some_iff hs).1 live
          exact (owns_iff hs).2 ⟨r, hr, row?_of_belongs own hr⟩
        refine congrArg Except.ok (eq_of_parts rfl ?_ rfl rfl rfl)
        have stays : ([⟨file, index, c.ciphertext, c.algorithm, c.iv⟩] : List ChunkRow).filter
            (fun c => t.owns user c.file) = [⟨file, index, c.ciphertext, c.algorithm, c.iv⟩] := by
          simp [owned]
        exact (congrArg _ stays.symm).trans (List.filter_append ..).symm
  complete {t user file bytes} hs own := by
    simp only [Store.complete, Tables.complete, live?_only_of_belongs hs own, chunksOf_only hs own]
    split
    · rfl
    · split
      · refine congrArg Except.ok (update_only ?_)
        exact fun _ => ⟨rfl, rfl⟩
      · rfl
  purge {t user file} hs own := by
    have there_eq : (only user t).files.any (·.id = file) = t.files.any (·.id = file) := by
      have found := congrArg Option.isSome (row?_only_of_belongs hs own)
      simpa only [row?, List.isSome_find?] using found
    simp only [Store.purge, Tables.purge, there_eq]
    split
    · exact congrArg Except.ok without_only
    · rfl
  delete {t user file} hs := by
    simp only [Store.delete, Tables.delete, live?_only hs]
    cases hr : t.live? file with
    | none => rfl
    | some r =>
      by_cases owned : r.owner = user
      · simp only [Option.filter, owned, decide_true, if_true]
        refine congrArg Except.ok (update_only ?_)
        exact fun _ => ⟨rfl, rfl⟩
      · simp [Option.filter, owned, Except.map]
  info {t user file} hs := by
    simp only [Store.info, Tables.info, live?_only hs]
    cases hr : t.live? file with
    | none => rfl
    | some r =>
      by_cases owned : r.owner = user
      · have mine : t.owns user file = true :=
          (owns_iff hs).2 ⟨r, ((live?_eq_some_iff hs).1 hr).1, owned⟩
        simp [Option.filter, owned, labelsOf_only mine]
      · simp [Option.filter, owned]
  chunks {t user file range} hs own := by
    simp only [Store.chunks, Tables.range, chunksOf_only hs own]
  list {t user q} hs := by
    have available_eq : (only user t).available user = t.available user := by
      simp only [available, only, List.filter_filter]
      apply List.filter_congr
      intro r _
      by_cases owned : r.owner = user <;> simp [owned]
    have rows_eq : (t.available user).filter ((only user t).rowAccepts (pattern q)) =
        (t.available user).filter (t.rowAccepts (pattern q)) := by
      apply List.filter_congr
      intro r hr
      obtain ⟨hmem, seen⟩ := List.mem_filter.1 hr
      simp only [Bool.and_eq_true, decide_eq_true_eq] at seen
      have mine : t.owns user r.id = true :=
        (owns_iff hs).2 ⟨r, Keyed.find?_of_mem FileRow.id hs.nodup hmem, seen.1.1⟩
      rw [rowAccepts, filter_labels_only mine, rowAccepts]
    simp only [Store.list, Tables.list, available_eq, rows_eq]

instance : DiscreetStore Tables where
  info_hidden {t user file} hs hidden := by
    simp only [Store.info, Tables.info]
    split
    · rename_i r live
      exact if_neg (hidden _ (ledger_live hs live))
    · rfl

end Tables

end Strongbox
