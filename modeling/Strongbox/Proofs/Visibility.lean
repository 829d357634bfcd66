import Mathlib.Data.List.Nodup
import Strongbox.Proofs.Listing
import Strongbox.Proofs.Store.Filtering
import Strongbox.Proofs.Store.Numbering
import Strongbox.Proofs.Store.Tenants

/-!
# What a user sees

A user may list files, ask about one, or download it. Each of these looks for itself at what the
store holds, and they agree: a user sees the files of its own that are complete and not deleted, and
all three tell the same of them. A deleted file is never seen again.

## Main statements

* `Service.agrees_of_reaches`: they agree on both stores, whatever calls are made of them and
  whatever traffic there is.
-/

namespace Strongbox

open Ledger Message

/-- A file is there for a user: it is the user's own, complete and not deleted. -/
def Ledger.Sees {σ : Type} [Ledger σ] (s : σ) (user file : Int) : Prop :=
  ∃ r, record? s file = some r ∧ r.owner = user ∧ r.isComplete = true ∧ r.isDeleted = false

theorem Ledger.sees_iff {σ : Type} [Ledger σ] {s : σ} {user file : Int} : Sees s user file ↔
    ∃ r, record? s file = some r ∧ r.owner = user ∧ r.isAvailable = true := by
  simp only [Sees, Record.isAvailable_iff]

/-- What is told of a file wherever it is seen. -/
structure Message.Facts where
  filename : String
  mimeType : String
  size : Int64
  description : String

def Record.facts (r : Record) : Facts :=
  ⟨r.filename, r.mimeType, .ofNat r.originalSize, r.description⟩

def Message.ListItem.facts (m : ListItem) : Facts := ⟨m.filename, m.mimeType, m.size, m.description⟩

def Message.FileDetails.facts (m : FileDetails) : Facts :=
  ⟨m.filename, m.mimeType, m.size, m.description⟩

def Message.Metadata.facts (m : Metadata) : Facts :=
  ⟨m.filename, m.mimeType, m.originalSize, m.description⟩

/-! ## Listings without a filter -/

/-- A store that lists pages of all of a user's files, unless there is a filter. -/
class ListingStore (σ : Type) [Store σ] [Ledger σ] : Prop where
  list {s : σ} (user : Int) : Sound s → ∃ found, Picks s user (fun _ => True) found ∧
    ∀ q : Query, q.filter = none → Store.list s user q = .ok (q.slice found, found.length)

theorem Query.finds_of_unfiltered {q : Query} (unfiltered : q.filter = none)
    {view : List Char → List Char} : q.Finds view = fun _ => True :=
  funext fun _ => eq_true fun _ hf => nomatch unfiltered.symm.trans hf

instance : ListingStore Resident where
  list {s} user sound := by
    let all := Query.make 1 1 ""
    have unfiltered : all.filter = none := by decide
    have picks := Resident.hits_picks sound user all
    rw [Query.finds_of_unfiltered unfiltered] at picks
    refine ⟨s.hits user all, picks, fun q hq => ?_⟩
    have same : s.hits user q = s.hits user all := by
      simp only [Resident.hits, Query.accepts, hq, unfiltered]
    simp only [Store.list, Resident.list, same]

instance : ListingStore Tables where
  list {t} user sound := by
    let all := Query.make 1 1 ""
    have unfiltered : all.filter = none := by decide
    have pattern_eq {q : Query} (hq : q.filter = none) : Tables.pattern q = "%" := by
      simp only [Tables.pattern, hq]
    refine ⟨t.hits user "%", ?_, fun q hq => ?_⟩
    · have picks := Tables.hits_picks sound user (q := all) (by simp [unfiltered])
      rwa [pattern_eq unfiltered, Query.finds_of_unfiltered unfiltered] at picks
    · rw [Tables.list_eq_hits t user (by rw [pattern_eq hq]; decide), pattern_eq hq]

/-- A request for the page after `k` others is the query turned there. -/
theorem Query.make_turned (page perPage : Int) (filter : String) (k : Nat) :
    Query.make (k + 1 : Nat) perPage filter = (Query.make page perPage filter).turned k := by
  have first : ¬((k + 1 : Nat) : Int) < 1 := by omega
  simp only [make, turned, if_neg first, Int.toNat_natCast]

/-! ## The three ways -/

namespace Service

/-- A user who asks about a file, or downloads it, is told these facts. -/
structure Tells {σ : Type} [Store σ] (s : σ) (user file : Int) (f : Facts) : Prop where
  informs : ∃ m, inform user file s = .ok m ∧ m.facts = f
  opens : ∀ workers d, Download.begin workers user file s = .ok d →
    ∃ m, d.queue = [.ok (.metadata m)] ∧ m.facts = f

/-- The items of all pages of a listing. A page whose number can be asked for is answered with its
items. They bring the number of each file that the user sees, once, and no other, and the facts that
the user is told elsewhere. -/
structure Shows {σ : Type} [Store σ] [Ledger σ] (s : σ) (user : Int) (r : ListRequest)
    (total : Nat) (items : Nat → List ListItem) : Prop where
  stored : ∀ k, ∃ page,
    Store.list s user ((Query.make r.page.toInt r.perPage.toInt r.filter).turned k) =
      .ok (page, total) ∧ items k = page.map Record.listItem
  answered : ∀ k < Word.maxInt32, ∃ m,
    enumerate user { r with page := .ofNat (k + 1) } s = .ok m ∧ m.files = items k
  ids : ∃ seen : List Int, seen.Nodup ∧ (∀ file, file ∈ seen ↔ Sees s user file) ∧
    ∀ n, (Query.make r.page.toInt r.perPage.toInt r.filter).totalPages total ≤ n →
      ((List.range n).flatMap items).map ListItem.id = seen.map Int64.ofInt
  facts : ∀ k, ∀ item ∈ items k, ∃ file, Sees s user file ∧ item.id = .ofInt file ∧
    Tells s user file item.facts

/-- The three ways to look at files agree. -/
structure Agrees {σ : Type} [Store σ] [Ledger σ] (s : σ) : Prop where
  /-- A listing without a filter shows the files that the user sees. -/
  listed : ∀ user r, Text.trim r.filter.toList = [] → ∃ total items, Shows s user r total items
  /-- Where numbers fit their words, a number is on one of the pages, and only once, if the user
  sees the file. -/
  lists_iff : Numbered s → ∀ user r total items, Shows s user r total items →
    ∀ n, (Query.make r.page.toInt r.perPage.toInt r.filter).totalPages total ≤ n →
      (((List.range n).flatMap items).map ListItem.id).Nodup ∧
      ∀ file : Int64, file ∈ ((List.range n).flatMap items).map ListItem.id ↔
        Sees s user file.toInt
  /-- A user is told of the files that the user sees. -/
  informs_iff : ∀ user file, (∃ m, inform user file s = .ok m) ↔ Sees s user file
  /-- A user can download the files that the user sees. -/
  opens_iff : ∀ workers user file, workers < Word.count32 →
    ((∃ d, Download.begin workers user file s = .ok d) ↔ Sees s user file)
  /-- What is told of a file is what its record says. -/
  tells : ∀ user file r, record? s file = some r → Sees s user file → Tells s user file r.facts
  /-- Nobody sees a deleted file again. -/
  gone : ∀ user file t, Store.delete s user file = .ok t →
    ∀ calls tr underway (v : Traffic σ),
    Traffic.Reaches tr ⟨((⟨t, []⟩ : Store.History σ).afterAll calls).store, underway⟩ v →
    ∀ anyone, ¬Sees v.store anyone file

variable {σ : Type} [Store σ] [Ledger σ] {s : σ} {user file : Int}

/-- What the store tells a user of an available file is its record, and it tells its owner. -/
theorem info_available_iff [LawfulStore σ] [DiscreetStore σ] (sound : Sound s) {r : Record} :
    (Store.info s file user = .ok r ∧ r.isAvailable = true) ↔
      record? s file = some r ∧ r.owner = user ∧ r.isAvailable = true := by
  constructor
  · rintro ⟨told, available⟩
    obtain ⟨live, owned⟩ := DiscreetStore.live_of_info sound told
    exact ⟨(live?_eq_some_iff.1 live).1, owned, available⟩
  · rintro ⟨hr, rfl, available⟩
    have visible := (Record.isAvailable_iff.1 available).2
    exact ⟨LawfulStore.info_live sound (live?_eq_some_iff.2 ⟨hr, visible⟩), available⟩

omit [Ledger σ] in
theorem inform_eq_ok_iff {details : FileDetails} : inform user file s = .ok details ↔
    ∃ r, (Store.info s file user = .ok r ∧ r.isAvailable = true) ∧ r.details = details := by
  rw [inform, bind_eq_ok_iff]
  refine exists_congr fun r => ?_
  rw [and_assoc]
  refine and_congr_right fun _ => ?_
  by_cases available : r.isAvailable = true
  · simp [available, pure, Except.pure]
  · simp [available, throw, throwThe, MonadExceptOf.throw]

theorem informs_iff [LawfulStore σ] [DiscreetStore σ] (sound : Sound s) :
    (∃ m, inform user file s = .ok m) ↔ Sees s user file := by
  simp only [inform_eq_ok_iff, info_available_iff sound, sees_iff]
  exact ⟨fun ⟨_, r, hr, _⟩ => ⟨r, hr⟩, fun ⟨r, hr⟩ => ⟨r.details, r, hr, rfl⟩⟩

theorem opens_iff [LawfulStore σ] [DiscreetStore σ] (sound : Sound s) {workers : Nat}
    (small : workers < Word.count32) :
    (∃ d, Download.begin workers user file s = .ok d) ↔ Sees s user file := by
  simp only [Download.begin_eq_ok_iff, info_available_iff sound, sees_iff]
  constructor
  · rintro ⟨_, r, hr, -⟩
    exact ⟨r, hr⟩
  · rintro ⟨r, hr⟩
    obtain ⟨ranges, hranges⟩ := exists_partition r.totalChunks small
    exact ⟨_, r, hr, ranges, hranges, rfl⟩

theorem tells_of_sees [LawfulStore σ] [DiscreetStore σ] (sound : Sound s) {r : Record}
    (hr : record? s file = some r) (sees : Sees s user file) : Tells s user file r.facts := by
  obtain ⟨r', hr', owned, available⟩ := sees_iff.1 sees
  cases hr.symm.trans hr'
  constructor
  · exact ⟨r.details, inform_eq_ok_iff.2 ⟨r, (info_available_iff sound).2 ⟨hr, owned, available⟩,
      rfl⟩, rfl⟩
  · intro workers d opened
    obtain ⟨r', told, ranges, -, rfl⟩ := Download.begin_eq_ok_iff.1 opened
    cases hr.symm.trans ((info_available_iff sound).1 told).1
    exact ⟨r.metadata, rfl, rfl⟩

theorem listed [LawfulStore σ] [DiscreetStore σ] [ListingStore σ] (sound : Sound s) (user : Int)
    {r : ListRequest} (blank : Text.trim r.filter.toList = []) :
    ∃ total items, Shows s user r total items := by
  let q := Query.make r.page.toInt r.perPage.toInt r.filter
  have unfiltered : q.filter = none := by simp [q, Query.make, blank]
  obtain ⟨found, picks, list⟩ := ListingStore.list user sound
  have page (k : Nat) := list (q.turned k) unfiltered
  have seen file : file ∈ found.map Record.id ↔ Sees s user file := by
    rw [picks.mem_iff, sees_iff]
    simp only [and_true]
  refine ⟨found.length, fun k => ((q.turned k).slice found).map Record.listItem,
    fun k => ⟨_, page k, rfl⟩, fun k hk => ?_, ⟨found.map Record.id, picks.nodup, seen, ?_⟩, ?_⟩
  · have turned : Query.make (Int32.ofNat (k + 1)).toInt r.perPage.toInt r.filter = q.turned k := by
      rw [Word.toInt_ofNat32 hk]
      exact Query.make_turned ..
    obtain ⟨m, answered, told⟩ := enumerate_eq (r := { r with page := .ofNat (k + 1) })
      (turned.symm ▸ page k)
    exact ⟨m, answered, turned ▸ told.files_eq⟩
  · intro n hn
    have all : found.length ≤ n * q.perPage :=
      (q.le_totalPages _).trans (Nat.mul_le_mul_right _ hn)
    rw [← List.map_flatMap, q.flatMap_slice, List.take_of_length_le all, List.map_map, List.map_map]
    rfl
  · intro k item hitem
    obtain ⟨e, he, rfl⟩ := List.mem_map.1 hitem
    have there : e ∈ found := List.mem_of_mem_drop (List.mem_of_mem_take he)
    have sees := (seen e.id).1 (List.mem_map_of_mem there)
    obtain ⟨e', hr, shown⟩ := picks.shown e there
    exact ⟨e.id, sees, rfl, by rw [shown]; exact tells_of_sees sound hr sees⟩

theorem lists_iff [LawfulStore σ] (sound : Sound s) (numbered : Numbered s) {r : ListRequest}
    {total : Nat} {items : Nat → List ListItem} (shows : Shows s user r total items) {n : Nat}
    (hn : (Query.make r.page.toInt r.perPage.toInt r.filter).totalPages total ≤ n) :
    (((List.range n).flatMap items).map ListItem.id).Nodup ∧
      ∀ file : Int64, file ∈ ((List.range n).flatMap items).map ListItem.id ↔
        Sees s user file.toInt := by
  obtain ⟨seen, nodup, mem_iff, ids⟩ := shows.ids
  have fits file (h : file ∈ seen) : (Int64.ofInt file).toInt = file := by
    obtain ⟨r, hr, -⟩ := (mem_iff file).1 h
    exact numbered file ((LawfulStore.mem_files_iff sound).2 (by rw [hr]; rfl))
  rw [ids n hn]
  refine ⟨List.Nodup.map_on (fun a ha b hb same => ?_) nodup, fun file => ?_⟩
  · rw [← fits a ha, ← fits b hb, same]
  · rw [← mem_iff, List.mem_map]
    constructor
    · rintro ⟨f, hf, rfl⟩
      exact (fits f hf).symm ▸ hf
    · exact fun h => ⟨_, h, Int64.ofInt_toInt file⟩

variable [Recall σ] [RecallingStore σ] {h : Store.History σ}

theorem gone (accounts : Store.Accounts h) {t : σ}
    (deleted : Store.delete h.store user file = .ok t) {calls : List Store.Call} {tr : Transfer}
    {underway : List Traffic.Call} {v : Traffic σ}
    (reaches : Traffic.Reaches tr
      ⟨((⟨t, []⟩ : Store.History σ).afterAll calls).store, underway⟩ v) (anyone : Int) :
    ¬Sees v.store anyone file := by
  rintro ⟨r, hr, -, -, visible⟩
  -- the same calls, made after the deletion
  let g : Store.History σ := ⟨t, .deleted file :: h.deeds⟩
  have after : h.after (.delete user file) = g := by
    simp only [Store.History.after, deleted, Store.History.note, g]
  have same : (g.afterAll calls).store = ((⟨t, []⟩ : Store.History σ).afterAll calls).store :=
    Store.History.store_afterAll_congr (h := g) (k := ⟨t, []⟩) rfl calls
  obtain ⟨more, reached⟩ := reaches.calls same
  have accounts : Store.Accounts g := after ▸ accounts.after (.delete user file)
  have later := (accounts.afterAll calls).afterAll more
  have done : .deleted file ∈ ((g.afterAll calls).afterAll more).deeds :=
    ((g.deeds_afterAll calls).trans ((g.afterAll calls).deeds_afterAll more)).subset
      List.mem_cons_self
  rw [← reached] at hr
  rw [((later.account file).isDeleted_iff r hr).2 done] at visible
  cases visible

variable [DiscreetStore σ] [ListingStore σ]

/-- Where a store holds what has been done to it, the three ways agree. -/
theorem agrees_of_accounts (accounts : Store.Accounts h) : Agrees h.store where
  listed user _ blank := listed accounts.sound user blank
  lists_iff numbered _ _ _ _ shows _ hn := lists_iff accounts.sound numbered shows hn
  informs_iff _ _ := informs_iff accounts.sound
  opens_iff _ _ _ small := opens_iff accounts.sound small
  tells _ _ _ hr sees := tells_of_sees accounts.sound hr sees
  gone _ _ _ deleted _ _ _ _ reaches := gone accounts deleted reaches

/-- The three ways agree after any calls and any traffic. -/
theorem agrees_of_traffic (accounts : Store.Accounts h) {calls : List Store.Call} {tr : Transfer}
    {underway : List Traffic.Call} {v : Traffic σ}
    (reaches : Traffic.Reaches tr ⟨(h.afterAll calls).store, underway⟩ v) : Agrees v.store := by
  obtain ⟨more, reached⟩ := reaches.calls rfl
  exact reached ▸ agrees_of_accounts ((accounts.afterAll calls).afterAll more)

/-- The three ways to look at files agree on both stores, whatever calls are made of them from the
start, and whatever traffic there is after that. -/
theorem agrees_of_reaches (calls : List Store.Call) (tr : Transfer)
    (underway : List Traffic.Call) :
    (∀ v, Traffic.Reaches tr
        ⟨((⟨{}, []⟩ : Store.History Resident).afterAll calls).store, underway⟩ v →
      Agrees v.store) ∧
    ∀ v, Traffic.Reaches tr
        ⟨((⟨{}, []⟩ : Store.History Tables).afterAll calls).store, underway⟩ v →
      Agrees v.store :=
  ⟨fun _ => agrees_of_traffic Resident.accounts_empty,
    fun _ => agrees_of_traffic Tables.accounts_empty⟩

/-- Of two complete files one is deleted, and the other is seen and listed in both stores. -/
theorem agrees_of_two_files :
    let calls : List Store.Call :=
      [.create default 5 {}, .complete 1 0, .create default 5 {}, .complete 2 0]
    let tr : Transfer := ⟨1, ⟨List.replicate 32 0, List.length_replicate⟩, Nat.one_pos⟩
    ∃ v u, Traffic.Reaches tr
        ⟨((⟨{}, []⟩ : Store.History Resident).afterAll calls).store, []⟩ v ∧
      Traffic.Reaches tr ⟨((⟨{}, []⟩ : Store.History Tables).afterAll calls).store, []⟩ u ∧
      Agrees v.store ∧ Agrees u.store ∧ Sees v.store 5 2 ∧ Sees u.store 5 2 ∧
      (∃ total items n, Shows v.store 5 {} total items ∧
        2 ∈ ((List.range n).flatMap items).map ListItem.id) ∧
      (∃ total items n, Shows u.store 5 {} total items ∧
        2 ∈ ((List.range n).flatMap items).map ListItem.id) ∧
      (∀ m, inform 5 1 v.store ≠ .ok m) ∧ ∀ m, inform 5 1 u.store ≠ .ok m := by
  intro calls tr
  let w : Traffic Resident := ⟨((⟨{}, []⟩ : Store.History Resident).afterAll calls).store, []⟩
  let x : Traffic Tables := ⟨((⟨{}, []⟩ : Store.History Tables).afterAll calls).store, []⟩
  have left : ((Traffic.step tr (.delete 5 1) w).map fun v =>
      ((record? v.store 1).map (·.isDeleted), (record? v.store 2).map fun r =>
        (r.owner, r.isAvailable))) = some (some true, some (5, true)) := by decide +kernel
  have right : ((Traffic.step tr (.delete 5 1) x).map fun v =>
      ((record? v.store 1).map (·.isDeleted), (record? v.store 2).map fun r =>
        (r.owner, r.isAvailable))) = some (some true, some (5, true)) := by decide +kernel
  obtain ⟨v, hv, left⟩ := Option.map_eq_some_iff.1 left
  obtain ⟨u, hu, right⟩ := Option.map_eq_some_iff.1 right
  have reaches : Traffic.Reaches tr w v := Traffic.Reaches.refl.next _ hv
  have reaches' : Traffic.Reaches tr x u := Traffic.Reaches.refl.next _ hu
  have agrees : Agrees v.store := (agrees_of_reaches calls tr []).1 v reaches
  have agrees' : Agrees u.store := (agrees_of_reaches calls tr []).2 u reaches'
  have seen {σ : Type} [Ledger σ] {s : σ}
      (there : (record? s 2).map (fun r => (r.owner, r.isAvailable)) = some (5, true)) :
      Sees s 5 2 := by
    obtain ⟨r, hr, told⟩ := Option.map_eq_some_iff.1 there
    exact sees_iff.2 ⟨r, hr, (Prod.mk.inj told).1, (Prod.mk.inj told).2⟩
  have hidden {σ : Type} [Store σ] [Ledger σ] {s : σ} (agrees : Agrees s)
      (there : (record? s 1).map (·.isDeleted) = some true) : ∀ m, inform 5 1 s ≠ .ok m := by
    intro m hm
    obtain ⟨r, hr, -, -, visible⟩ := (agrees.informs_iff 5 1).1 ⟨m, hm⟩
    simp [hr, visible] at there
  have listed {σ : Type} [Store σ] [Ledger σ] {s : σ} (agrees : Agrees s) (numbered : Numbered s)
      (sees : Sees s 5 2) : ∃ total items n, Shows s 5 {} total items ∧
        2 ∈ ((List.range n).flatMap items).map ListItem.id := by
    obtain ⟨total, items, shows⟩ := agrees.listed 5 {} Text.trim_nil
    have lists := agrees.lists_iff numbered 5 {} total items shows _ (Nat.le_refl _)
    exact ⟨total, items, _, shows, (lists.2 2).2 sees⟩
  have numbered : Numbered v.store :=
    (Traffic.Run.nil.snoc hv).numbered Resident.accounts_empty (by decide)
  have numbered' : Numbered u.store :=
    (Traffic.Run.nil.snoc hu).numbered Tables.accounts_empty (by decide)
  have sees := seen (Prod.mk.inj left).2
  have sees' := seen (Prod.mk.inj right).2
  exact ⟨v, u, reaches, reaches', agrees, agrees', sees, sees', listed agrees numbered sees,
    listed agrees' numbered' sees', hidden agrees (Prod.mk.inj left).1,
    hidden agrees' (Prod.mk.inj right).1⟩

end Service

end Strongbox
