import Mathlib.Data.List.Nodup
import Strongbox.Proofs.Listing
import Strongbox.Proofs.Store.Tenants
import Strongbox.Proofs.Twins
import Strongbox.Service

/-!
# Stores that match

Two lawful stores that number files and labels alike hold the same after the same operations. How
they keep their files does not matter, nor how precisely they note when a file was made.
-/

namespace Strongbox

def Message.ListItem.timeless (m : ListItem) : ListItem := { m with createdAt := "" }

open Ledger

/-- What a store notes of a new file besides its draft. -/
class Stamped (σ : Type) where
  /-- The last number given to a label. -/
  lastLabel : σ → Int
  /-- A moment as the store notes it. -/
  stamp : Moment → Moment

open Stamped

section Timely

variable {σ : Type} [Ledger σ] [Stamped σ] {s t : σ} {now : Moment} {file : Int}

/-- The store is sound, and its files were made by now, in the order of their numbers. -/
structure Timely (now : Moment) (s : σ) : Prop where
  sound : Sound s
  past : ∀ {file r}, record? s file = some r → r.createdAt.NoLater (stamp σ now)
  ordered : ∀ {f g r r'}, f < g → record? s f = some r → record? s g = some r' →
    r.createdAt.NoLater r'.createdAt

/-- A file that is still there was made when it was made before. -/
def Dated (file : Int) (s t : σ) : Prop := ∀ r', record? t file = some r' →
  ∃ r, record? s file = some r ∧ r'.createdAt = r.createdAt

omit [Stamped σ] in
theorem Dated.of_some {r r' : Record} (hr : record? s file = some r)
    (hr' : record? t file = some r') (same : r'.createdAt = r.createdAt) : Dated file s t := by
  intro e he
  cases hr'.symm.trans he
  exact ⟨r, hr, same⟩

omit [Stamped σ] in
theorem Dated.of_eq (h : record? t file = record? s file) : Dated file s t :=
  fun r' hr' => ⟨r', h ▸ hr', rfl⟩

omit [Stamped σ] in
theorem Dated.of_none (h : record? t file = none) : Dated file s t := by
  intro r' hr'
  rw [h] at hr'
  cases hr'

/-- A change of a file that does not touch when it was made. -/
theorem Timely.changed (timely : Timely now s) (changes : Changes file s t)
    (dated : Dated file s t) : Timely now t := by
  have before : ∀ {g r'}, record? t g = some r' →
      ∃ r, record? s g = some r ∧ r'.createdAt = r.createdAt := by
    intro g r' hr'
    by_cases hg : g = file
    · subst hg
      exact dated r' hr'
    · exact ⟨r', changes.record_eq g hg ▸ hr', rfl⟩
  refine ⟨changes.sound, fun hr' => ?_, fun lt hf hg => ?_⟩
  · obtain ⟨r, hr, same⟩ := before hr'
    exact same ▸ timely.past hr
  · obtain ⟨r, hr, same⟩ := before hf
    obtain ⟨r', hr', same'⟩ := before hg
    rw [same, same']
    exact timely.ordered lt hr hr'

theorem Timely.created [Store σ] [LawfulStore σ] (timely : Timely now s) (sound : Sound t)
    {r : Record} (record_eq : ∀ g, record? t g = if g = last s + 1 then some r else record? s g)
    (made : r.createdAt = stamp σ now) : Timely now t := by
  have old : ∀ {g e}, record? s g = some e → g ≤ last s := fun he =>
    LawfulStore.le_last timely.sound ((LawfulStore.mem_files_iff timely.sound).2 (by rw [he]; rfl))
  refine ⟨sound, fun {g e} he => ?_, fun {f g e e'} lt hf hg => ?_⟩
  · rw [record_eq] at he
    split at he
    · cases he
      exact made ▸ .refl _
    · exact timely.past he
  · rw [record_eq] at hf hg
    split at hg
    · cases hg
      rw [if_neg (by omega)] at hf
      exact made ▸ timely.past hf
    · have := old hg
      rw [if_neg (by omega)] at hf
      exact timely.ordered lt hf hg

end Timely

namespace Ledger

variable {σ : Type} [Ledger σ]

/-- The numbers are those of the files that a user sees, the greatest first. -/
structure Lists (user : Int) (s : σ) (ids : List Int) : Prop where
  descending : ids.Pairwise fun a b => b < a
  mem_iff : ∀ file, file ∈ ids ↔
    ∃ r, record? s file = some r ∧ r.owner = user ∧ r.isAvailable = true

end Ledger

/-- A store that makes new files of drafts, gives their labels numbers in a row, and lists files by
number if all of them are asked for. -/
class StampedStore (σ : Type) [Store σ] [Ledger σ] [Stamped σ] : Prop where
  stamp_mono {a b : Moment} : a.NoLater b → (stamp σ a).NoLater (stamp σ b)
  create {s : σ} {d : Draft} (now : Moment) (owner : Int) : Sound s → Keeps σ d →
    d.originalSize ≤ Word.maxInt64 →
    ∃ t, Store.create s now owner d = .ok (last s + 1, t) ∧
      record? t (last s + 1) = some (Record.ofDraft (last s + 1) owner d (stamp σ now)
        (Record.numberLabels (lastLabel s) d.labels))
  label {s t : σ} {now : Moment} {owner file : Int} {d : Draft} :
    Store.create s now owner d = .ok (file, t) → lastLabel t = lastLabel s + d.labels.length
  save {s t : σ} {file : Int} {index : Nat} {c : Sealed} : Store.save s file index c = .ok t →
    lastLabel t = lastLabel s
  complete {s t : σ} {file : Int} {bytes : Nat} : Store.complete s file bytes = .ok t →
    lastLabel t = lastLabel s
  delete {s t : σ} {owner file : Int} : Store.delete s owner file = .ok t →
    lastLabel t = lastLabel s
  purge {s t : σ} {file : Int} : Store.purge s file = .ok t → lastLabel t = lastLabel s
  list {s : σ} {now : Moment} {q : Query} (user : Int) : Timely now s → q.filter = none →
    ∃ ids found, Lists user s ids ∧ Store.list s user q = .ok (q.slice found, found.length) ∧
      (found.map Record.listItem).map some = ids.map fun file =>
        (record? s file).map Record.listItem

section Matches

variable {σ τ : Type} [Ledger σ] [Ledger τ] [Stamped σ] [Stamped τ] {s s' : σ} {t t' : τ}
  {now later : Moment} {user file : Int}

/-- Two stores hold the same, except when files were made. -/
structure Matches (now : Moment) (s : σ) (t : τ) : Prop where
  left : Timely now s
  right : Timely now t
  last_eq : last t = last s
  label_eq : lastLabel t = lastLabel s
  records : ∀ file, Option.Rel Record.Concurs (record? s file) (record? t file)
  rows : ∀ file, (rows s file).Perm (rows t file)

namespace Matches

theorem live (both : Matches now s t) (file : Int) :
    Option.Rel Record.Concurs (live? s file) (live? t file) := by
  have records := both.records file
  unfold live?
  generalize record? s file = a at records
  generalize record? t file = b at records
  cases records with
  | none => exact .none
  | @some r r' concur =>
    have same : r'.isDeleted = r.isDeleted := by rw [concur]
    cases hr : r.isDeleted with
    | true => simp [Option.filter, same, hr]
    | false => simpa [Option.filter, same, hr] using Option.Rel.some concur

theorem live_some (both : Matches now s t) {r : Record} (h : live? s file = some r) :
    ∃ r', live? t file = some r' ∧ r.Concurs r' := by
  have live := both.live file
  rw [h] at live
  cases ht : live? t file with
  | none =>
    rw [ht] at live
    cases live
  | some r' =>
    rw [ht] at live
    cases live with
    | some concur => exact ⟨r', rfl, concur⟩

theorem live_none (both : Matches now s t) (h : live? s file = none) : live? t file = none := by
  have live := both.live file
  rw [h] at live
  cases ht : live? t file with
  | none => rfl
  | some r' =>
    rw [ht] at live
    cases live

/-- Two stores match after the same has been done to a file in both. -/
theorem changed (both : Matches now s t) (left : Changes file s s') (right : Changes file t t')
    (label_eq : lastLabel t' = lastLabel s')
    (records : Option.Rel Record.Concurs (record? s' file) (record? t' file))
    (rows : (Ledger.rows s' file).Perm (Ledger.rows t' file))
    (leftDated : Dated file s s') (rightDated : Dated file t t') : Matches now s' t' where
  left := both.left.changed left leftDated
  right := both.right.changed right rightDated
  last_eq := by rw [left.last_eq, right.last_eq, both.last_eq]
  label_eq := label_eq
  records g := by
    by_cases hg : g = file
    · exact hg ▸ records
    · rw [left.record_eq g hg, right.record_eq g hg]
      exact both.records g
  rows g := by
    by_cases hg : g = file
    · exact hg ▸ rows
    · rw [left.rows_eq g hg, right.rows_eq g hg]
      exact both.rows g

theorem lists_eq (both : Matches now s t) {ids ids' : List Int} (left : Lists user s ids)
    (right : Lists user t ids') : ids' = ids := by
  have seen {a b : Option Record} (records : Option.Rel Record.Concurs a b) :
      (∃ r, b = some r ∧ r.owner = user ∧ r.isAvailable = true) ↔
        ∃ r, a = some r ∧ r.owner = user ∧ r.isAvailable = true := by
    cases records with
    | none => simp
    | @some r r' concur =>
      have owner_eq : r'.owner = r.owner := by rw [concur]
      have available_eq : r'.isAvailable = r.isAvailable := by rw [concur]; rfl
      simp [owner_eq, available_eq]
  have perm : ids'.Perm ids := by
    refine (List.perm_ext_iff_of_nodup ?_ ?_).2 fun file => ?_
    · exact right.descending.imp fun h => by omega
    · exact left.descending.imp fun h => by omega
    · rw [left.mem_iff, right.mem_iff]
      exact seen (both.records file)
  exact perm.eq_of_pairwise (fun a b _ _ h h' => by omega) right.descending left.descending

variable [Store σ] [Store τ] [LawfulStore σ] [LawfulStore τ] [StampedStore σ] [StampedStore τ]

omit [LawfulStore σ] [LawfulStore τ] in
theorem wait (both : Matches now s t) (h : now.NoLater later) : Matches later s t where
  left := { both.left with past := fun hr => (both.left.past hr).trans (StampedStore.stamp_mono h) }
  right := { both.right with
    past := fun hr => (both.right.past hr).trans (StampedStore.stamp_mono h) }
  last_eq := both.last_eq
  label_eq := both.label_eq
  records := both.records
  rows := both.rows

theorem create (both : Matches now s t) {d : Draft} (leftKeeps : Keeps σ d) (rightKeeps : Keeps τ d)
    (small : d.originalSize ≤ Word.maxInt64) (owner : Int) :
    Agree (fun a b => a.1 = b.1 ∧ Matches now a.2 b.2) (Store.create s now owner d)
      (Store.create t now owner d) := by
  obtain ⟨s', hs, leftRecord⟩ := StampedStore.create now owner both.left.sound leftKeeps small
  obtain ⟨t', ht, rightRecord⟩ := StampedStore.create now owner both.right.sound rightKeeps small
  have leftOutcome := LawfulStore.create now owner d both.left.sound
  have rightOutcome := LawfulStore.create now owner d both.right.sound
  rw [hs] at leftOutcome ⊢
  rw [ht] at rightOutcome ⊢
  have same := both.last_eq
  cases leftOutcome with
  | @done r _ _ _ leftSound leftLast leftRecords leftRows =>
    cases rightOutcome with
    | @done r' _ _ _ rightSound rightLast rightRecords rightRows =>
      have hr := (leftRecords _).symm.trans leftRecord
      rw [if_pos rfl] at hr
      cases hr
      have hr' := (rightRecords _).symm.trans rightRecord
      rw [if_pos rfl] at hr'
      cases hr'
      refine .ok ⟨by rw [same], ?_⟩
      refine ⟨both.left.created leftSound leftRecords rfl,
        both.right.created rightSound rightRecords rfl, ?_, ?_, fun g => ?_, fun g => ?_⟩
      · show last t' = last s'
        omega
      · rw [StampedStore.label hs, StampedStore.label ht, both.label_eq]
      · rw [leftRecords, rightRecords, same, both.label_eq]
        split
        · exact .some rfl
        · exact both.records g
      · rw [leftRows, rightRows]
        exact both.rows g

theorem save (both : Matches now s t) (file : Int) (index : Nat) {c : Sealed}
    (known : c.algorithm = algorithmName) :
    Agree (Matches now) (Store.save s file index c) (Store.save t file index c) := by
  have left := LawfulStore.save file index both.left.sound known
  have right := LawfulStore.save file index both.right.sound known
  have leftLabel {s'} (h : Store.save s file index c = .ok s') := StampedStore.save h
  have rightLabel {t'} (h : Store.save t file index c = .ok t') := StampedStore.save h
  generalize Store.save s file index c = a at left leftLabel
  generalize Store.save t file index c = b at right rightLabel
  cases left with
  | missing gone =>
    have gone' := both.live_none gone
    cases right with
    | missing => exact .error _
    | twice live | done live => cases gone'.symm.trans live
  | twice live there =>
    obtain ⟨r', live', -⟩ := both.live_some live
    obtain ⟨d, hd, taken⟩ := there
    cases right with
    | missing gone => cases gone.symm.trans live'
    | twice => exact .error _
    | done _ fresh => exact absurd taken (fresh d ((both.rows file).mem_iff.1 hd))
  | done live fresh changes record_eq rows_eq =>
    obtain ⟨r', live', -⟩ := both.live_some live
    cases right with
    | missing gone => cases gone.symm.trans live'
    | twice _ there =>
      obtain ⟨d, hd, taken⟩ := there
      exact absurd taken (fresh d ((both.rows file).mem_iff.2 hd))
    | done _ _ changes' record_eq' rows_eq' =>
      refine .ok (both.changed changes changes' ?_ ?_ ?_ (.of_eq record_eq) (.of_eq record_eq'))
      · rw [leftLabel rfl, rightLabel rfl, both.label_eq]
      · rw [record_eq, record_eq']
        exact both.records file
      · exact rows_eq.trans (((both.rows file).cons _).trans rows_eq'.symm)

theorem complete (both : Matches now s t) (file : Int) {bytes : Nat}
    (small : bytes ≤ Word.maxInt64) :
    Agree (Matches now) (Store.complete s file bytes) (Store.complete t file bytes) := by
  have left := LawfulStore.complete file both.left.sound small
  have right := LawfulStore.complete file both.right.sound small
  have leftLabel {s'} (h : Store.complete s file bytes = .ok s') := StampedStore.complete h
  have rightLabel {t'} (h : Store.complete t file bytes = .ok t') := StampedStore.complete h
  have rows := both.rows file
  generalize Store.complete s file bytes = a at left leftLabel
  generalize Store.complete t file bytes = b at right rightLabel
  have filled {r r' : Record} (concur : r.Concurs r') :
      r'.Filled (Ledger.rows t file) ↔ r.Filled (Ledger.rows s file) := by
    have total_eq : r'.totalChunks = r.totalChunks := by rw [concur]
    constructor
    · intro h
      exact ⟨by rw [rows.length_eq, h.length_eq, total_eq],
        fun c hc => total_eq ▸ h.index_lt c (rows.mem_iff.1 hc)⟩
    · intro h
      exact ⟨by rw [← rows.length_eq, h.length_eq, total_eq],
        fun c hc => total_eq ▸ h.index_lt c (rows.mem_iff.2 hc)⟩
  cases left with
  | missing gone =>
    have gone' := both.live_none gone
    cases right with
    | missing => exact .error _
    | miscounted live | done live => cases gone'.symm.trans live
  | @miscounted r live short =>
    obtain ⟨r', live', concur⟩ := both.live_some live
    cases right with
    | missing gone => cases gone.symm.trans live'
    | miscounted live =>
      cases live'.symm.trans live
      have total_eq : r'.totalChunks = r.totalChunks := by rw [concur]
      rw [← rows.length_eq, total_eq]
      exact .error _
    | done live full =>
      cases live'.symm.trans live
      exact absurd ((filled concur).1 full) short
  | done live full changes record_eq rows_eq =>
    obtain ⟨r', live', concur⟩ := both.live_some live
    cases right with
    | missing gone => cases gone.symm.trans live'
    | miscounted live short =>
      cases live'.symm.trans live
      exact absurd ((filled concur).2 full) short
    | done live'' _ changes' record_eq' rows_eq' =>
      cases live'.symm.trans live''
      have hr := (live?_eq_some_iff.1 live).1
      have hr' := (live?_eq_some_iff.1 live').1
      refine .ok (both.changed changes changes' ?_ ?_ ?_ (.of_some hr record_eq rfl)
        (.of_some hr' record_eq' rfl))
      · rw [leftLabel rfl, rightLabel rfl, both.label_eq]
      · rw [record_eq, record_eq', concur]
        exact .some rfl
      · rw [rows_eq, rows_eq']
        exact rows

theorem delete (both : Matches now s t) (owner file : Int) :
    Agree (Matches now) (Store.delete s owner file) (Store.delete t owner file) := by
  have left := LawfulStore.delete owner file both.left.sound
  have right := LawfulStore.delete owner file both.right.sound
  have leftLabel {s'} (h : Store.delete s owner file = .ok s') := StampedStore.delete h
  have rightLabel {t'} (h : Store.delete t owner file = .ok t') := StampedStore.delete h
  generalize Store.delete s owner file = a at left leftLabel
  generalize Store.delete t owner file = b at right rightLabel
  cases left with
  | missing gone =>
    cases right with
    | missing => exact .error _
    | @done r' _ live' owned =>
      cases hs : live? s file with
      | none => cases (both.live_none hs).symm.trans live'
      | some r =>
        obtain ⟨e, live, concur⟩ := both.live_some hs
        cases live'.symm.trans live
        have owner_eq : r'.owner = r.owner := by rw [concur]
        exact absurd (owner_eq.symm.trans owned) (gone r hs)
  | @done r _ live owned changes record_eq rows_eq =>
    obtain ⟨r', live', concur⟩ := both.live_some live
    cases right with
    | missing gone =>
      have owner_eq : r'.owner = r.owner := by rw [concur]
      exact absurd (owner_eq.trans owned) (gone r' live')
    | done live'' _ changes' record_eq' rows_eq' =>
      cases live'.symm.trans live''
      have hr := (live?_eq_some_iff.1 live).1
      have hr' := (live?_eq_some_iff.1 live').1
      refine .ok (both.changed changes changes' ?_ ?_ ?_ (.of_some hr record_eq rfl)
        (.of_some hr' record_eq' rfl))
      · rw [leftLabel rfl, rightLabel rfl, both.label_eq]
      · rw [record_eq, record_eq', concur]
        exact .some rfl
      · rw [rows_eq, rows_eq']
        exact both.rows file

theorem purge [Labelled σ] [Labelled τ] [ConfinedStore σ] [ConfinedStore τ]
    (both : Matches now s t) (file : Int) :
    Agree (Matches now) (Store.purge s file) (Store.purge t file) := by
  have left := LawfulStore.purge file both.left.sound
  have right := LawfulStore.purge file both.right.sound
  have leftLabel {s'} (h : Store.purge s file = .ok s') := StampedStore.purge h
  have rightLabel {t'} (h : Store.purge t file = .ok t') := StampedStore.purge h
  have leftThere {s'} (h : Store.purge s file = .ok s') :=
    (ConfinedStore.purge both.left.sound h).1.known
  have rightThere {t'} (h : Store.purge t file = .ok t') :=
    (ConfinedStore.purge both.right.sound h).1.known
  have records := both.records file
  generalize Store.purge s file = a at left leftLabel leftThere
  generalize Store.purge t file = b at right rightLabel rightThere
  cases left with
  | missing gone =>
    cases right with
    | missing => exact .error _
    | done =>
      obtain ⟨r', hr'⟩ := Option.isSome_iff_exists.1 (rightThere rfl)
      rw [gone, hr'] at records
      cases records
  | done changes record_eq rows_eq =>
    cases right with
    | missing gone =>
      obtain ⟨r, hr⟩ := Option.isSome_iff_exists.1 (leftThere rfl)
      rw [hr, gone] at records
      cases records
    | done changes' record_eq' rows_eq' =>
      refine .ok (both.changed changes changes' ?_ ?_ ?_ (.of_none record_eq) (.of_none record_eq'))
      · rw [leftLabel rfl, rightLabel rfl, both.label_eq]
      · rw [record_eq, record_eq']
        exact .none
      · rw [rows_eq, rows_eq']

/-! ## Questions -/

omit [StampedStore σ] [StampedStore τ] in
theorem info [DiscreetStore σ] [DiscreetStore τ] (both : Matches now s t) (file user : Int) :
    Agree Record.Concurs (Store.info s file user) (Store.info t file user) := by
  by_cases hidden : Hidden user file s
  · have hidden' : Hidden user file t := by
      intro r' live'
      cases hs : live? s file with
      | none => cases (both.live_none hs).symm.trans live'
      | some r =>
        obtain ⟨e, live, concur⟩ := both.live_some hs
        cases live'.symm.trans live
        have owner_eq : r'.owner = r.owner := by rw [concur]
        exact owner_eq ▸ hidden r hs
    rw [DiscreetStore.info_hidden both.left.sound hidden,
      DiscreetStore.info_hidden both.right.sound hidden']
    exact .error _
  · simp only [Hidden, Classical.not_forall, Decidable.not_not] at hidden
    obtain ⟨r, live, rfl⟩ := hidden
    obtain ⟨r', live', concur⟩ := both.live_some live
    have owner_eq : r'.owner = r.owner := by rw [concur]
    have told := LawfulStore.info_live both.right.sound live'
    rw [owner_eq] at told
    rw [LawfulStore.info_live both.left.sound live, told]
    exact .ok concur

omit [StampedStore σ] [StampedStore τ] in
/-- The chunks of a range come in the order of their indices, so there is only one way to tell
them. -/
theorem chunks (both : Matches now s t) {r : Record} (hr : record? s file = some r) {range : Span}
    (ordered : range.start ≤ range.stop) :
    Store.chunks s file range = Store.chunks t file range := by
  have records := both.records file
  obtain ⟨r', hr'⟩ : ∃ r', record? t file = some r' := by
    rw [hr] at records
    cases ht : record? t file with
    | none =>
      rw [ht] at records
      cases records
    | some r' => exact ⟨r', rfl⟩
  obtain ⟨cs, hs, perm, sorted⟩ := LawfulStore.chunks_known both.left.sound hr ordered
  obtain ⟨ds, ht, perm', sorted'⟩ := LawfulStore.chunks_known both.right.sound hr' ordered
  have same : cs.Perm ds := perm.trans (((both.rows file).filter _).trans perm'.symm)
  have once : ((Ledger.rows s file).map (·.index)).Nodup :=
    LawfulStore.nodup_indices both.left.sound
  rw [hs, ht, same.eq_of_pairwise (fun c d hc hd le ge => ?_) sorted sorted']
  have hc := (List.mem_filter.1 (perm.mem_iff.1 hc)).1
  have hd := (List.mem_filter.1 (perm.mem_iff.1 (same.mem_iff.2 hd))).1
  exact List.inj_on_of_nodup_map once hc hd (Nat.le_antisymm le ge)

omit [StampedStore σ] [StampedStore τ] in
theorem download_eq [DiscreetStore σ] [DiscreetStore τ] (both : Matches now s t) (tr : Transfer)
    (schedule : Schedule Download.Move) (user file : Int) :
    download tr schedule user file s = download tr schedule user file t := by
  refine download_eq_of_info (both.info file user) (fun r range hr ordered => ?_) tr schedule
  obtain ⟨live, -⟩ := DiscreetStore.live_of_info both.left.sound hr
  have there := (live?_eq_some_iff.1 live).1
  rw [LawfulStore.id_eq both.left.sound there]
  exact both.chunks there ordered

omit [LawfulStore σ] [LawfulStore τ] in
/-- Listings have as many files, and show the same of them, except when they were made. -/
theorem list (both : Matches now s t) (user : Int) {q : Query} (blank : q.filter = none) :
    ∃ xs ys, Store.list s user q = .ok (q.slice xs, xs.length) ∧
      Store.list t user q = .ok (q.slice ys, ys.length) ∧
      xs.map (fun r => r.listItem.timeless) = ys.map fun r => r.listItem.timeless := by
  obtain ⟨ids, xs, lists, hs, shown⟩ := StampedStore.list user both.left blank
  obtain ⟨ids', ys, lists', ht, shown'⟩ := StampedStore.list user both.right blank
  cases both.lists_eq lists lists'
  have same : ∀ file, ((record? s file).map Record.listItem).map Message.ListItem.timeless =
      ((record? t file).map Record.listItem).map Message.ListItem.timeless := by
    intro file
    have records := both.records file
    generalize record? s file = a at records
    generalize record? t file = b at records
    cases records with
    | none => rfl
    | some concur =>
      rw [concur]
      rfl
  refine ⟨xs, ys, hs, ht, (List.map_inj_right fun _ _ => Option.some.inj).1 ?_⟩
  calc
    (xs.map fun r => r.listItem.timeless).map some
    _ = ((xs.map Record.listItem).map some).map (Option.map Message.ListItem.timeless) := by
      simp only [List.map_map]
      rfl
    _ = ids.map fun file => ((record? t file).map Record.listItem).map
        Message.ListItem.timeless := by
      rw [shown, List.map_map]
      exact List.map_congr_left fun file _ => same file
    _ = ((ys.map Record.listItem).map some).map (Option.map Message.ListItem.timeless) := by
      rw [shown', List.map_map]
      rfl
    _ = (ys.map fun r => r.listItem.timeless).map some := by
      simp only [List.map_map]
      rfl

end Matches

end Matches

end Strongbox
