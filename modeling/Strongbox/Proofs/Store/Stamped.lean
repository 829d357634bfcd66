import Strongbox.Proofs.Store.Matching

/-!
# What stores note of new files

The resident store notes moments as they are, the relational store in whole seconds. Both number the
labels of all files in one row, and both list the newest files first.
-/

namespace Strongbox

open Ledger Stamped

/-- The records of a user's files, in the order of listings, are those of the files by number. -/
theorem Timely.listed {σ : Type} [Ledger σ] [Stamped σ] {s : σ} {now : Moment} {user : Int}
    {l : List Record} (timely : Timely now s) (nodup : (l.map Record.id).Nodup)
    (kept : ∀ r ∈ l, ∃ e, record? s r.id = some e ∧ e.owner = user ∧ e.isAvailable = true ∧
      e.createdAt = r.createdAt ∧ e.listItem = r.listItem)
    (all : ∀ file r, record? s file = some r → r.owner = user → r.isAvailable = true →
      file ∈ l.map Record.id) :
    ∃ ids, Lists user s ids ∧ ((newestFirst l).map Record.listItem).map some =
      ids.map fun file => (record? s file).map Record.listItem := by
  have perm : (newestFirst l).Perm l := List.mergeSort_perm l _
  refine ⟨(newestFirst l).map Record.id, ⟨?_, fun file => ?_⟩, ?_⟩
  · refine List.pairwise_map.2 (descending_newestFirst nodup fun a ha b hb lt => ?_)
    obtain ⟨e, he, -, -, made, -⟩ := kept a ha
    obtain ⟨e', he', -, -, made', -⟩ := kept b hb
    rw [← made, ← made']
    exact timely.ordered lt he he'
  · rw [(perm.map Record.id).mem_iff]
    constructor
    · intro hfile
      obtain ⟨r, hr, rfl⟩ := List.mem_map.1 hfile
      obtain ⟨e, he, owned, available, -⟩ := kept r hr
      exact ⟨e, he, owned, available⟩
    · rintro ⟨r, hr, owned, available⟩
      exact all file r hr owned available
  · simp only [List.map_map]
    apply List.map_congr_left
    intro r hr
    obtain ⟨e, he, -, -, -, shown⟩ := kept r (perm.mem_iff.1 hr)
    simp only [Function.comp_apply, he, Option.map_some, shown]

/-! ## The resident store -/

namespace Resident

instance : Stamped Resident where
  lastLabel := Resident.lastLabel
  stamp := id

variable {s t : Resident} {user : Int} {now : Moment}

def seen (s : Resident) (user : Int) : List Record :=
  (s.files.map (·.record)).filter fun r => r.owner = user && r.isAvailable

theorem mem_seen {r : Record} :
    r ∈ s.seen user ↔ (∃ f ∈ s.files, f.record = r) ∧ r.owner = user ∧ r.isAvailable = true := by
  simp [seen, List.mem_filter]

theorem listed (timely : Timely now s) (user : Int) : ∃ ids, Lists user s ids ∧
    ((newestFirst (s.seen user)).map Record.listItem).map some =
      ids.map fun file => (Ledger.record? s file).map Record.listItem := by
  have sound : s.Sound := timely.sound
  refine timely.listed ?_ (fun r hr => ?_) fun file r hr owned available => ?_
  · have ids : (s.files.map (·.record)).map Record.id = s.files.map StoredFile.id := by
      rw [List.map_map]
      rfl
    exact (ids ▸ sound.nodup).sublist (List.filter_sublist.map _)
  · obtain ⟨⟨f, hf, rfl⟩, owned, available⟩ := mem_seen.1 hr
    exact ⟨f.record, record?_of_mem sound hf, owned, available, rfl, rfl⟩
  · obtain ⟨f, hf, rfl⟩ := Option.map_eq_some_iff.1 hr
    obtain ⟨hmem, rfl⟩ := mem_of_file? hf
    exact List.mem_map_of_mem (mem_seen.2 ⟨⟨f, hmem, rfl⟩, owned, available⟩)

instance : StampedStore Resident where
  stamp_mono h := h
  create {s d} now owner hs _ _ := by
    refine ⟨(s.create now owner d).2, rfl, ?_⟩
    rw [ledger_record?, file?_create hs]
    exact congrArg (Option.map StoredFile.record) (if_pos rfl)
  label h := by
    cases h
    rfl
  save {s t file index c} h := by
    simp only [Store.save, Resident.save] at h
    split at h
    · cases h
    · split at h <;> cases h
      rfl
  complete {s t file bytes} h := by
    simp only [Store.complete, Resident.complete] at h
    split at h
    · cases h
    · split at h <;> cases h
      rfl
  delete {s t owner file} h := by
    simp only [Store.delete, Resident.delete] at h
    split at h
    · split at h <;> cases h
      rfl
    · cases h
  purge {s t file} h := by
    simp only [Store.purge, Resident.purge] at h
    split at h <;> cases h
    rfl
  list {s now q} user timely blank := by
    obtain ⟨ids, lists, shown⟩ := listed timely user
    refine ⟨ids, newestFirst (s.seen user), lists, ?_, shown⟩
    have hits_eq : s.hits user q = newestFirst (s.seen user) := by
      simp only [hits, seen, Query.accepts, blank, Bool.and_true]
    simp only [Store.list, Resident.list, hits_eq]

end Resident

/-! ## The relational store -/

namespace Tables

instance : Stamped Tables where
  lastLabel := Tables.lastLabel
  stamp now := .universal now.seconds 0

variable {t u : Tables} {user file : Int} {now : Moment}

theorem record_create (hs : t.Sound) {owner : Int} {d : Draft} (plain : d.IsPlain)
    (small : d.originalSize ≤ Word.maxInt64) :
    Ledger.record? (t.create now owner d).2 (t.lastFile + 1) =
      some (Record.ofDraft (t.lastFile + 1) owner d (.universal now.seconds 0)
        (Record.numberLabels t.lastLabel d.labels)) := by
  rw [ledger_record?, row?_create hs, if_pos rfl, Option.map_some, labelsOf_create hs plain]
  have texts := d.mem_texts
  simp only [record, newRow, Record.ofDraft, signedWord_of_le small,
    readText_of_plain (plain _ texts.1), readText_of_plain (plain _ texts.2.1),
    readText_of_plain (plain _ texts.2.2)]

def seen (t : Tables) (user : Int) : List Record := (t.available user).map fun r => record r []

theorem listed (timely : Timely now t) (user : Int) : ∃ ids, Lists user t ids ∧
    ((newestFirst (t.seen user)).map Record.listItem).map some =
      ids.map fun file => (Ledger.record? t file).map Record.listItem := by
  have sound : t.Sound := timely.sound
  refine timely.listed ?_ (fun r hr => ?_) fun file r hr owned available => ?_
  · have ids : (t.seen user).map Record.id = (t.available user).map FileRow.id := by
      rw [seen, List.map_map]
      rfl
    exact ids ▸ sound.nodup.sublist (List.filter_sublist.map _)
  · obtain ⟨e, he, rfl⟩ := List.mem_map.1 hr
    obtain ⟨hmem, seen⟩ := List.mem_filter.1 he
    simp only [Bool.and_eq_true, decide_eq_true_eq] at seen
    exact ⟨_, record?_of_mem sound hmem, seen.1.1, by simp [Record.isAvailable, record, seen], rfl,
      rfl⟩
  · obtain ⟨e, he, rfl⟩ := Option.map_eq_some_iff.1 hr
    obtain ⟨hmem, rfl⟩ := mem_of_row? he
    simp only [Record.isAvailable, record, Bool.and_eq_true, Bool.not_eq_true'] at available
    have seen : e ∈ t.available user := by
      refine List.mem_filter.2 ⟨hmem, ?_⟩
      simp [show e.owner = user from owned, available]
    exact List.mem_map_of_mem (f := Record.id) (List.mem_map_of_mem seen)

instance : StampedStore Tables where
  stamp_mono {a b} h := by
    unfold Moment.NoLater at *
    simp only [stamp, Moment.universal]
    omega
  create {t d} now owner hs plain small := ⟨_, rfl, record_create hs plain small⟩
  label h := by
    cases h
    rfl
  save {t u file index c} h := by
    simp only [Store.save, Tables.save] at h
    split at h
    · cases h
    · split at h <;> cases h
      rfl
  complete {t u file bytes} h := by
    simp only [Store.complete, Tables.complete] at h
    split at h
    · cases h
    · split at h <;> cases h
      rfl
  delete {t u owner file} h := by
    simp only [Store.delete, Tables.delete] at h
    split at h
    · split at h <;> cases h
      rfl
    · cases h
  purge {t u file} h := by
    simp only [Store.purge, Tables.purge] at h
    split at h <;> cases h
    rfl
  list {t now q} user timely blank := by
    obtain ⟨ids, lists, shown⟩ := listed timely user
    refine ⟨ids, newestFirst (t.seen user), lists, ?_, shown⟩
    have all : (t.available user).filter (t.rowAccepts "%") = t.available user := by
      rw [List.filter_eq_self]
      intro r _
      simp [rowAccepts, Pattern.accepts_any]
    have short : ¬Pattern.maxBytes < "%".utf8ByteSize := by decide
    simp only [Store.list, Tables.list, pattern, blank, all, decide_eq_false short, Bool.and_false]
    rfl

end Tables

end Strongbox
