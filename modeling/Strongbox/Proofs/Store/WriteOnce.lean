import Strongbox.Proofs.Store.History

/-!
# Chunks are written once

Whatever calls are made of a store, a chunk that was written stays as it was written until its file
is forgotten, and no file is made again under a number that was given out before.

## Main definitions

* `Store.WriteOnce`: what holds of a store and of what has been done to it.

## Main statements

* `Store.write_once`: it holds of both stores after all calls. The relational store gives the name
  of an algorithm back up to its first null character.
* `Store.algorithm_cut_at_null`: it does not give back the whole name.
-/

namespace Strongbox.Store

open Ledger

variable {σ : Type} [Store σ]

/-- A chunk is not written, and everything is left as it was. -/
structure Refuses (h : History σ) (file : Int) (index : Nat) (c : Sealed) (f : Failure) : Prop where
  error : Store.save h.store file index c = .error f
  unchanged : h.after (.save file index c) = h

/-- Chunks are written once, and they are kept. The store gives back `name` of an algorithm's name.
-/
structure WriteOnce (name : String → String) (h : History σ) : Prop where
  /-- A chunk that was written is not written again. -/
  again : ∀ {file : Int} {index : Nat} {c : Sealed}, .saved file index c ∈ h.deeds →
    .deleted file ∉ h.deeds → .purged file ∉ h.deeds →
    ∀ c', Refuses h file index c' (.duplicateChunk file index)
  /-- A chunk that was written is given back, also when its file has been deleted. -/
  kept : ∀ {file : Int} {index : Nat} {c : Sealed}, .saved file index c ∈ h.deeds →
    .purged file ∉ h.deeds → ∀ range : Span, index ∈ range →
    ∃ cs, Store.chunks h.store file range = .ok cs ∧
      cs.filter (·.index = index) = [⟨file, index, c.ciphertext, name c.algorithm, c.iv⟩]
  /-- The chunks of a range are those that were written, in order, and none is there twice. -/
  fetched : ∀ {file : Int} {d : Draft}, .created file d ∈ h.deeds → .purged file ∉ h.deeds →
    ∀ range : Span, range.start ≤ range.stop →
    ∃ cs, Store.chunks h.store file range = .ok cs ∧ cs.Pairwise (·.index < ·.index) ∧
      ∀ i, i ∈ cs.map (·.index) ↔ i ∈ range ∧ ∃ c, .saved file i c ∈ h.deeds
  /-- Nothing is written to a file that is not there, or not there any more. -/
  refused : ∀ {file : Int}, (∀ d, .created file d ∉ h.deeds) ∨ .deleted file ∈ h.deeds ∨
    .purged file ∈ h.deeds → ∀ index c, Refuses h file index c .notFound
  /-- The number of a file that was forgotten is not given out again. -/
  fresh : ∀ {file : Int}, .purged file ∈ h.deeds →
    ∀ now owner d t, Store.create h.store now owner d ≠ .ok (file, t)

variable [Ledger σ] [Recall σ] [RecallingStore σ] {h : History σ} {file : Int} {index : Nat}
  {c : Sealed} {range : Span}

omit [Ledger σ] [Recall σ] [RecallingStore σ] in
theorem Refuses.of_error {f : Failure} (error : Store.save h.store file index c = .error f) :
    Refuses h file index c f := by
  refine ⟨error, ?_⟩
  rw [History.after, error]
  rfl

namespace Accounts

omit [Store σ] [RecallingStore σ] in
/-- What was written is among the rows of its file, until it is forgotten. -/
theorem mem_rows (accounts : Accounts h) (saved : .saved file index c ∈ h.deeds)
    (unpurged : .purged file ∉ h.deeds) : Recall.chunk σ file index c ∈ rows h.store file :=
  ((accounts.account file).mem_rows_iff _).2 ⟨unpurged, index, c, saved, rfl⟩

theorem known (accounts : Accounts h) (saved : .saved file index c ∈ h.deeds)
    (unpurged : .purged file ∉ h.deeds) : ∃ r, record? h.store file = some r := by
  refine Option.ne_none_iff_exists'.1 fun missing => ?_
  have row := accounts.mem_rows saved unpurged
  rw [LawfulStore.rows_of_missing accounts.sound missing] at row
  cases row

/-- The chunks of a range, as far as they have been written. -/
theorem chunks (accounts : Accounts h) {r : Record} (hr : record? h.store file = some r)
    (ordered : range.start ≤ range.stop) :
    ∃ cs, Store.chunks h.store file range = .ok cs ∧ cs.Pairwise (·.index < ·.index) ∧
      ∀ e, e ∈ cs ↔ e ∈ rows h.store file ∧ e.index ∈ range := by
  obtain ⟨cs, hcs, perm, sorted⟩ := LawfulStore.chunks_known accounts.sound hr ordered
  refine ⟨cs, hcs, ?_, fun e => ?_⟩
  · have nodup : (cs.map Chunk.index).Nodup := (perm.map _).nodup_iff.2
      ((LawfulStore.nodup_indices accounts.sound).sublist (List.filter_sublist.map _))
    exact (sorted.and (List.pairwise_map.1 nodup)).imp fun ⟨le, ne⟩ => Nat.lt_of_le_of_ne le ne
  · rw [perm.mem_iff, List.mem_filter, decide_eq_true_eq]

theorem again (accounts : Accounts h) (saved : .saved file index c ∈ h.deeds)
    (undeleted : .deleted file ∉ h.deeds) (unpurged : .purged file ∉ h.deeds) (c' : Sealed) :
    Store.save h.store file index c' = .error (.duplicateChunk file index) := by
  obtain ⟨r, hr⟩ := accounts.known saved unpurged
  have visible : r.isDeleted = false := Bool.eq_false_iff.2
    (mt ((accounts.account file).isDeleted_iff r hr).1 undeleted)
  have live := live?_eq_some_iff.2 ⟨hr, visible⟩
  have row := accounts.mem_rows saved unpurged
  have outcome := RecallingStore.saving file index c' accounts.sound
  generalize Store.save h.store file index c' = result at outcome
  cases outcome with
  | twice => rfl
  | missing gone => cases live.symm.trans gone
  | done live fresh => exact absurd rfl (fresh _ row)

theorem kept (accounts : Accounts h) (saved : .saved file index c ∈ h.deeds)
    (unpurged : .purged file ∉ h.deeds) (mem : index ∈ range) :
    ∃ cs, Store.chunks h.store file range = .ok cs ∧
      cs.filter (·.index = index) = [Recall.chunk σ file index c] := by
  obtain ⟨r, hr⟩ := accounts.known saved unpurged
  obtain ⟨cs, hcs, ascending, mem_iff⟩ :=
    accounts.chunks hr (Nat.le_of_lt (Nat.lt_of_le_of_lt mem.1 mem.2))
  have nodup : (cs.map Chunk.index).Nodup := List.pairwise_map.2 (ascending.imp Nat.ne_of_lt)
  exact ⟨cs, hcs, Keyed.filter_of_mem Chunk.index nodup
    ((mem_iff _).2 ⟨accounts.mem_rows saved unpurged, mem⟩)⟩

theorem refused (accounts : Accounts h) (gone : (∀ d, .created file d ∉ h.deeds) ∨
    .deleted file ∈ h.deeds ∨ .purged file ∈ h.deeds) (index : Nat) (c : Sealed) :
    Store.save h.store file index c = .error .notFound := by
  have account := accounts.account file
  have dead : live? h.store file = none := by
    refine Option.eq_none_iff_forall_ne_some.2 fun r live => ?_
    obtain ⟨hr, visible⟩ := live?_eq_some_iff.1 live
    obtain ⟨⟨d, created⟩, unpurged⟩ := account.known_iff.1 (isSome_of_live live)
    rcases gone with unknown | deleted | purged
    · exact unknown d created
    · cases visible.symm.trans ((account.isDeleted_iff r hr).2 deleted)
    · exact unpurged purged
  have outcome := RecallingStore.saving file index c accounts.sound
  generalize Store.save h.store file index c = result at outcome
  cases outcome with
  | missing => rfl
  | twice live | done live => cases dead.symm.trans live

theorem fresh (accounts : Accounts h) (purged : .purged file ∈ h.deeds) (now : Moment)
    (owner : Int) (d : Draft) (t : σ) : Store.create h.store now owner d ≠ .ok (file, t) := by
  have past := accounts.past _ purged
  have outcome := LawfulStore.create now owner d accounts.sound
  intro made
  rw [made] at outcome
  cases outcome with
  | done =>
    exact absurd past (Int.not_le.2 (Int.lt_succ _))

/-- What a store holds is what has been done to it, and so its chunks are written once. -/
theorem writeOnce (accounts : Accounts h) : WriteOnce (Recall.name σ) h where
  again saved undeleted unpurged c' := .of_error (accounts.again saved undeleted unpurged c')
  kept saved unpurged range mem := accounts.kept saved unpurged mem
  fetched {file d} created unpurged range ordered := by
    have account := accounts.account file
    obtain ⟨r, hr⟩ := Option.isSome_iff_exists.1 (account.known_iff.2 ⟨⟨d, created⟩, unpurged⟩)
    obtain ⟨cs, hcs, ascending, mem_iff⟩ := accounts.chunks hr ordered
    refine ⟨cs, hcs, ascending, fun i => ?_⟩
    rw [List.mem_map]
    constructor
    · rintro ⟨e, he, rfl⟩
      obtain ⟨row, inside⟩ := (mem_iff e).1 he
      obtain ⟨-, index, c, saved, rfl⟩ := (account.mem_rows_iff e).1 row
      exact ⟨inside, c, saved⟩
    · rintro ⟨inside, c, saved⟩
      exact ⟨_, (mem_iff _).2 ⟨accounts.mem_rows saved unpurged, inside⟩, rfl⟩
  refused gone index c := .of_error (accounts.refused gone index c)
  fresh := accounts.fresh

end Accounts

/-- Both stores write chunks once, whatever calls are made of them. The resident store gives chunks
back as they were, the relational store the name of their algorithm up to its first null character.
-/
theorem write_once (calls : List Call) :
    WriteOnce id ((⟨{}, []⟩ : History Resident).afterAll calls) ∧
    WriteOnce Tables.readText ((⟨{}, []⟩ : History Tables).afterAll calls) :=
  ⟨(Resident.accounts_empty.afterAll calls).writeOnce,
    (Tables.accounts_empty.afterAll calls).writeOnce⟩

/-- The relational store does not give the name of an algorithm back if there is a null character in
it. -/
theorem algorithm_cut_at_null :
    let c : Sealed := ⟨[0xaa], "a\x00b", [0xbb]⟩
    let calls : List Call := [.create default 1 { totalChunks := 1 }, .save 1 0 c]
    ¬WriteOnce id ((⟨{}, []⟩ : History Tables).afterAll calls) := by
  intro c calls writeOnce
  have saved : .saved 1 0 c ∈ ((⟨{}, []⟩ : History Tables).afterAll calls).deeds := by decide
  obtain ⟨cs, hcs, whole⟩ := writeOnce.kept saved (by decide) ⟨0, 1⟩ (by decide)
  have cut : cs = [⟨1, 0, [0xaa], "a", [0xbb]⟩] :=
    Option.some.inj ((congrArg Except.toOption hcs).symm.trans (by decide +kernel))
  rw [cut] at whole
  revert whole
  decide

end Strongbox.Store
