import Strongbox.Proofs.Plan
import Strongbox.Proofs.Store.Confined

/-!
# What has been done to a store

Calls are made of a store one after another, with whatever they are given. Those that change it are
noted, and what the store holds of a file is what has been noted of it.
-/

namespace Strongbox

open Ledger

namespace Store

inductive Call where
  | create (now : Moment) (owner : Int) (d : Draft)
  | save (file : Int) (index : Nat) (c : Sealed)
  | complete (file : Int) (bytes : Nat)
  | info (file owner : Int)
  | chunks (file : Int) (range : Span)
  | delete (owner file : Int)
  | list (owner : Int) (q : Query)
  | purge (file : Int)

/-- What a call has changed. -/
inductive Deed where
  | created (file : Int) (d : Draft)
  | saved (file : Int) (index : Nat) (c : Sealed)
  | completed (file : Int) (bytes : Nat)
  | deleted (file : Int)
  | purged (file : Int)
  deriving Repr, DecidableEq

def Deed.file : Deed → Int
  | created file _ | saved file .. | completed file _ | deleted file | purged file => file

/-- A store and what has been done to it, the latest first. -/
structure History (σ : Type) where
  store : σ
  deeds : List Deed := []

namespace History

variable {σ : Type} [Store σ]

/-- The history after a change that may have failed. -/
def note (h : History σ) (deed : Deed) : Except Failure σ → History σ
  | .ok s => ⟨s, deed :: h.deeds⟩
  | .error _ => h

/-- The history after a call. A call that fails, or that only asks, leaves everything as it was. -/
def after (h : History σ) : Call → History σ
  | .create now owner d =>
    match Store.create h.store now owner d with
    | .ok (file, s) => ⟨s, .created file d :: h.deeds⟩
    | .error _ => h
  | .save file index c => h.note (.saved file index c) (Store.save h.store file index c)
  | .complete file bytes => h.note (.completed file bytes) (Store.complete h.store file bytes)
  | .delete owner file => h.note (.deleted file) (Store.delete h.store owner file)
  | .purge file => h.note (.purged file) (Store.purge h.store file)
  | .info .. | .chunks .. | .list .. => h

def afterAll (h : History σ) (calls : List Call) : History σ := calls.foldl after h

omit [Store σ] in
theorem deeds_note (h : History σ) (deed : Deed) (r : Except Failure σ) :
    h.deeds <:+ (h.note deed r).deeds := by
  cases r with
  | ok s => exact List.suffix_cons ..
  | error f => exact List.suffix_refl _

theorem deeds_after (h : History σ) (call : Call) : h.deeds <:+ (h.after call).deeds := by
  cases call with
  | create now owner d =>
    simp only [after]
    split
    · exact List.suffix_cons ..
    · exact List.suffix_refl _
  | save | complete | delete | purge => exact deeds_note ..
  | info | chunks | list => exact List.suffix_refl _

theorem deeds_afterAll (h : History σ) (calls : List Call) :
    h.deeds <:+ (h.afterAll calls).deeds := by
  induction calls generalizing h with
  | nil => exact List.suffix_refl _
  | cons call calls ih => exact (deeds_after h call).trans (ih _)

theorem afterAll_append (h : History σ) (calls more : List Call) :
    h.afterAll (calls ++ more) = (h.afterAll calls).afterAll more := List.foldl_append

/-- What a call does to a store does not depend on what has been done to it. -/
theorem store_after_congr {h k : History σ} (same : h.store = k.store) (call : Call) :
    (h.after call).store = (k.after call).store := by
  cases call with
  | create | save | complete | delete | purge =>
    simp only [after, note, same]
    split
    · rfl
    · exact same
  | info | chunks | list => exact same

theorem store_afterAll_congr {h k : History σ} (same : h.store = k.store) (calls : List Call) :
    (h.afterAll calls).store = (k.afterAll calls).store := by
  induction calls generalizing h k with
  | nil => exact same
  | cons call calls ih => exact ih (store_after_congr same call)

end History

end Store

/-- How a store gives back what it is given. -/
class Recall (σ : Type) where
  /-- The name of an algorithm, as it is given back. -/
  name : String → String
  /-- The size of a file, as it is given back. -/
  size : Nat → Nat

/-- A stored chunk, as it is given back. -/
def Recall.chunk (σ : Type) [Recall σ] (file : Int) (index : Nat) (c : Sealed) : Chunk :=
  ⟨file, index, c.ciphertext, name σ c.algorithm, c.iv⟩

/-- A lawful store that takes chunks sealed in any way, and files of any size. -/
class RecallingStore (σ : Type) [Store σ] [Ledger σ] [Recall σ] : Prop extends LawfulStore σ where
  saving {s : σ} (file : Int) (index : Nat) (c : Sealed) : Sound s →
    Store.Saving s file index { c with algorithm := Recall.name σ c.algorithm }
      (Store.save s file index c)
  completing {s : σ} (file : Int) (bytes : Nat) : Sound s →
    Store.Completing s file (Recall.size σ bytes) (Store.complete s file bytes)
  known_of_purge {s t : σ} {file : Int} : Sound s → Store.purge s file = .ok t →
    (record? s file).isSome

instance : Recall Resident where
  name := id
  size := id

instance : RecallingStore Resident where
  saving file index c hs := Resident.saving hs file index c
  completing file bytes hs := Resident.completing hs file bytes
  known_of_purge hs h := (ConfinedStore.purge hs h).1.known

instance : Recall Tables where
  name := Tables.readText
  size n := (Tables.signedWord n).toNat

instance : RecallingStore Tables where
  saving file index c hs := Tables.saving hs file index c
  completing file bytes hs := Tables.completing hs file bytes
  known_of_purge hs h := (ConfinedStore.purge hs h).1.known

/-- A row of chunks of which none is there twice is counted rightly if and only if its indices are
those below the total. -/
theorem Record.filled_iff {r : Record} {rows : List Chunk} (nodup : (rows.map (·.index)).Nodup) :
    r.Filled rows ↔ ∀ i, (∃ e ∈ rows, e.index = i) ↔ i < r.totalChunks := by
  constructor
  · intro filled
    have perm := perm_range nodup (fun i hi => ?_) ((List.length_map _).trans filled.length_eq)
    · intro i
      rw [← List.mem_map, perm.mem_iff, List.mem_range]
    · obtain ⟨e, he, rfl⟩ := List.mem_map.1 hi
      exact filled.index_lt e he
  · intro all
    have perm : (rows.map (·.index)).Perm (List.range r.totalChunks) := by
      refine (List.perm_ext_iff_of_nodup nodup List.nodup_range).2 fun i => ?_
      rw [List.mem_map, List.mem_range, all]
    exact ⟨by simpa using perm.length_eq, fun e he => (all e.index).1 ⟨e, he, rfl⟩⟩

namespace Store

variable {σ : Type} [Store σ] [Ledger σ] [Recall σ] {h : History σ} {t : σ} {file g owner : Int}
  {index bytes : Nat} {c : Sealed} {d : Draft} {r : Record} {deed : Deed} {call : Call}

/-- What a store holds of a file is what has been done to it. -/
structure Account (file : Int) (h : History σ) : Prop where
  known_iff : (record? h.store file).isSome ↔
    (∃ d, .created file d ∈ h.deeds) ∧ .purged file ∉ h.deeds
  isDeleted_iff : ∀ r, record? h.store file = some r →
    (r.isDeleted = true ↔ .deleted file ∈ h.deeds)
  isComplete_iff : ∀ r, record? h.store file = some r →
    (r.isComplete = true ↔ ∃ bytes, .completed file bytes ∈ h.deeds)
  mem_rows_iff : ∀ e, e ∈ rows h.store file ↔ .purged file ∉ h.deeds ∧
    ∃ index c, .saved file index c ∈ h.deeds ∧ e = Recall.chunk σ file index c
  covered : ∀ r, record? h.store file = some r → r.isComplete = true → ∀ i < r.totalChunks,
    ∃ e ∈ rows h.store file, e.index = i

/-- What a store holds is what has been done to it, and it has been done to files with numbers that
were given out. There are no more of these than deeds. -/
structure Accounts (h : History σ) : Prop where
  sound : Sound h.store
  past : ∀ deed ∈ h.deeds, deed.file ≤ last h.store
  counted : 0 ≤ last h.store ∧ last h.store ≤ h.deeds.length
  positive : ∀ file d, .created file d ∈ h.deeds → 0 < file
  account : ∀ file, Account file h

omit [Store σ] in
theorem Account.elsewhere (account : Account g h) (other : g ≠ deed.file)
    (record_eq : record? t g = record? h.store g) (rows_eq : rows t g = rows h.store g) :
    Account g ⟨t, deed :: h.deeds⟩ := by
  have mem_iff : ∀ e : Deed, e.file = g → (e ∈ deed :: h.deeds ↔ e ∈ h.deeds) := by
    rintro e rfl
    exact List.mem_cons.trans (or_iff_right fun same => other (congrArg Deed.file same))
  have created d := mem_iff (.created g d) rfl
  have saved index c := mem_iff (.saved g index c) rfl
  have completed bytes := mem_iff (.completed g bytes) rfl
  have deleted := mem_iff (.deleted g) rfl
  have purged := mem_iff (.purged g) rfl
  constructor
  case known_iff => simpa only [record_eq, created, purged] using account.known_iff
  case isDeleted_iff => simpa only [record_eq, deleted] using account.isDeleted_iff
  case isComplete_iff => simpa only [record_eq, completed] using account.isComplete_iff
  case mem_rows_iff => simpa only [rows_eq, saved, purged] using account.mem_rows_iff
  case covered => simpa only [record_eq, rows_eq] using account.covered

theorem Accounts.start [RecallingStore σ] {s : σ} (sound : Sound s) (fresh : last s = 0)
    (empty : ∀ file, record? s file = none) : Accounts (⟨s, []⟩ : History σ) where
  sound := sound
  past := nofun
  counted := ⟨Int.le_of_eq fresh.symm, Int.le_of_eq fresh⟩
  positive := nofun
  account file := by
    have nothing := LawfulStore.rows_of_missing sound (empty file)
    constructor <;> simp [empty, nothing]

/-! ## What is done to a file -/

section

omit [Store σ]

theorem Account.saved (account : Account file h) (live : live? h.store file = some r)
    (record_eq : record? t file = record? h.store file)
    (rows_eq : (rows t file).Perm (Recall.chunk σ file index c :: rows h.store file)) :
    Account file ⟨t, .saved file index c :: h.deeds⟩ := by
  have kept := (account.known_iff.1 (isSome_of_live live)).2
  constructor
  case known_iff => simpa [record_eq] using account.known_iff
  case isDeleted_iff => simpa [record_eq] using account.isDeleted_iff
  case isComplete_iff => simpa [record_eq] using account.isComplete_iff
  case mem_rows_iff =>
    intro e
    rw [rows_eq.mem_iff, List.mem_cons, account.mem_rows_iff]
    grind
  case covered =>
    intro r hr complete i hi
    obtain ⟨e, he, rfl⟩ := account.covered r (record_eq ▸ hr) complete i hi
    exact ⟨e, rows_eq.mem_iff.2 (.tail _ he), rfl⟩

theorem Account.completed (account : Account file h) (live : live? h.store file = some r)
    (covered : ∀ i < r.totalChunks, ∃ e ∈ rows h.store file, e.index = i)
    {size : Nat} (record_eq : record? t file = some (r.completed size))
    (rows_eq : rows t file = rows h.store file) :
    Account file ⟨t, .completed file bytes :: h.deeds⟩ := by
  have hr := (live?_eq_some_iff.1 live).1
  constructor
  case known_iff => simpa [record_eq, hr] using account.known_iff
  case isDeleted_iff => simpa [record_eq, Record.completed] using account.isDeleted_iff r hr
  case isComplete_iff => simp [record_eq, Record.completed]
  case mem_rows_iff => simpa [rows_eq] using account.mem_rows_iff
  case covered => simpa [record_eq, Record.completed, rows_eq] using covered

theorem Account.deleted (account : Account file h) (live : live? h.store file = some r)
    (record_eq : record? t file = some r.deleted) (rows_eq : rows t file = rows h.store file) :
    Account file ⟨t, .deleted file :: h.deeds⟩ := by
  have hr := (live?_eq_some_iff.1 live).1
  constructor
  case known_iff => simpa [record_eq, hr] using account.known_iff
  case isDeleted_iff => simp [record_eq, Record.deleted]
  case isComplete_iff => simpa [record_eq, Record.deleted] using account.isComplete_iff r hr
  case mem_rows_iff => simpa [rows_eq] using account.mem_rows_iff
  case covered => simpa [record_eq, Record.deleted, rows_eq] using account.covered r hr

theorem Account.purged (record_eq : record? t file = none) (rows_eq : rows t file = []) :
    Account file ⟨t, .purged file :: h.deeds⟩ := by
  constructor <;> simp [record_eq, rows_eq]

theorem Account.created (past : ∀ deed ∈ h.deeds, deed.file ≠ file)
    (isNew : r.IsNew file owner d) (record_eq : record? t file = some r)
    (rows_eq : rows t file = []) : Account file ⟨t, .created file d :: h.deeds⟩ := by
  have saved index c : Deed.saved file index c ∉ h.deeds := fun there => past _ there rfl
  have completed bytes : Deed.completed file bytes ∉ h.deeds := fun there => past _ there rfl
  have deleted : Deed.deleted file ∉ h.deeds := fun there => past _ there rfl
  have purged : Deed.purged file ∉ h.deeds := fun there => past _ there rfl
  constructor
  case known_iff => simp [record_eq, purged]
  case isDeleted_iff => simp [record_eq, isNew.visible, deleted]
  case isComplete_iff => simp [record_eq, isNew.incomplete, completed]
  case mem_rows_iff => simp [rows_eq, saved]
  case covered => simp [record_eq, isNew.incomplete]

end

/-! ## All calls -/

theorem Accounts.changed [RecallingStore σ] (accounts : Accounts h)
    (known : (record? h.store deed.file).isSome) (changes : Changes deed.file h.store t)
    (account : Account deed.file ⟨t, deed :: h.deeds⟩) : Accounts ⟨t, deed :: h.deeds⟩ where
  sound := changes.sound
  past e he := by
    rw [show last t = last h.store from changes.last_eq]
    rcases List.mem_cons.1 he with rfl | he
    · exact LawfulStore.le_last_of_isSome accounts.sound known
    · exact accounts.past e he
  counted := by
    have := accounts.counted
    rw [show last t = last h.store from changes.last_eq, List.length_cons]
    omega
  positive file d hd := by
    rcases List.mem_cons.1 hd with rfl | hd
    · obtain ⟨d, made⟩ := ((accounts.account file).known_iff.1 known).1
      exact accounts.positive file d made
    · exact accounts.positive file d hd
  account g := by
    by_cases hg : g = deed.file
    · exact hg ▸ account
    · exact (accounts.account g).elsewhere hg (changes.record_eq g hg) (changes.rows_eq g hg)

theorem Accounts.created [RecallingStore σ] (accounts : Accounts h)
    (isNew : r.IsNew (last h.store + 1) owner d) (sound : Sound t)
    (last_eq : last t = last h.store + 1)
    (record_eq : ∀ g, record? t g = if g = last h.store + 1 then some r else record? h.store g)
    (rows_eq : ∀ g, rows t g = rows h.store g) :
    Accounts ⟨t, .created (last h.store + 1) d :: h.deeds⟩ where
  sound := sound
  past e he := by
    rw [show last t = _ from last_eq]
    rcases List.mem_cons.1 he with rfl | he
    · exact Int.le_refl _
    · have := accounts.past e he
      omega
  counted := by
    have := accounts.counted
    rw [show last t = _ from last_eq, List.length_cons]
    omega
  positive file d hd := by
    rcases List.mem_cons.1 hd with same | hd
    · cases same
      have := accounts.counted.1
      omega
    · exact accounts.positive file d hd
  account g := by
    by_cases hg : g = last h.store + 1
    · subst hg
      have missing := LawfulStore.record?_of_last_lt accounts.sound (Int.lt_succ (last h.store))
      refine .created (fun e he => ?_) isNew (by rw [record_eq, if_pos rfl]) ?_
      · have := accounts.past e he
        omega
      · rw [rows_eq]
        exact LawfulStore.rows_of_missing accounts.sound missing
    · exact (accounts.account g).elsewhere hg (by rw [record_eq, if_neg hg]) (rows_eq g)

/-- Every call keeps a store and what has been done to it in step. -/
theorem Accounts.after [RecallingStore σ] (accounts : Accounts h) (call : Call) :
    Accounts (h.after call) := by
  have sound := accounts.sound
  cases call with
  | create now owner d =>
    have outcome := LawfulStore.create now owner d sound
    simp only [History.after]
    generalize Store.create h.store now owner d = made at outcome
    cases outcome with
    | done isNew tells sound last_eq record_eq rows_eq =>
      exact accounts.created isNew sound last_eq record_eq rows_eq
  | save file index c =>
    have outcome := RecallingStore.saving file index c sound
    simp only [History.after]
    generalize Store.save h.store file index c = result at outcome
    cases outcome with
    | missing | twice => exact accounts
    | done live fresh changes record_eq rows_eq =>
      exact accounts.changed (isSome_of_live live) changes
        ((accounts.account file).saved live record_eq rows_eq)
  | complete file bytes =>
    have outcome := RecallingStore.completing file bytes sound
    simp only [History.after]
    generalize Store.complete h.store file bytes = result at outcome
    cases outcome with
    | missing | miscounted => exact accounts
    | done live filled changes record_eq rows_eq =>
      have all := (Record.filled_iff (LawfulStore.nodup_indices sound)).1 filled
      exact accounts.changed (isSome_of_live live) changes
        ((accounts.account file).completed live (fun i => (all i).2) record_eq rows_eq)
  | delete owner file =>
    have outcome := LawfulStore.delete owner file sound
    simp only [History.after]
    generalize Store.delete h.store owner file = result at outcome
    cases outcome with
    | missing => exact accounts
    | done live owned changes record_eq rows_eq =>
      exact accounts.changed (isSome_of_live live) changes
        ((accounts.account file).deleted live record_eq rows_eq)
  | purge file =>
    have outcome := LawfulStore.purge file sound
    simp only [History.after]
    generalize hp : Store.purge h.store file = result at outcome
    cases outcome with
    | missing => exact accounts
    | done changes record_eq rows_eq =>
      exact accounts.changed (RecallingStore.known_of_purge sound hp) changes
        (.purged record_eq rows_eq)
  | info | chunks | list => exact accounts

theorem Accounts.afterAll [RecallingStore σ] (accounts : Accounts h) (calls : List Call) :
    Accounts (h.afterAll calls) := by
  induction calls generalizing h with
  | nil => exact accounts
  | cons call calls ih => exact ih (accounts.after call)

end Store

/-! ## The two stores -/

theorem Resident.accounts_empty : Store.Accounts (⟨{}, []⟩ : Store.History Resident) :=
  .start sound_empty rfl fun _ => rfl

theorem Tables.accounts_empty : Store.Accounts (⟨{}, []⟩ : Store.History Tables) :=
  .start sound_empty rfl fun _ => rfl

end Strongbox
