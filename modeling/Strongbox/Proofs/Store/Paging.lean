import Strongbox.Proofs.Listing
import Strongbox.Proofs.Store.Escaping
import Strongbox.Proofs.Store.Filtering
import Strongbox.Proofs.Visibility
import Strongbox.Proofs.Word.Checked

/-!
# Listings in pages

Whatever page and page size are asked for, a listing shows the files that its store finds in pages
that lose and repeat nothing, the newest first. The relational store refuses to search for a pattern
that is too long, whatever the page.

## Main definitions

* `Query.InWords`: the arithmetic of a query stays within its words.
* `Ledger.PicksInOrder`: what a listing is to find, in its order.
* `Service.Pages`: what a user is shown, page by page.

## Main statements

* `Query.inWords_make`: no query that can be asked leaves its words.
* `Service.pages_of_calls`: the pages of both stores, after any calls.
* `Service.not_pages_of_long_filter`: a filter for which there are none.
-/

namespace Strongbox

open Ledger Message

/-! ## Arithmetic -/

namespace Query

def offsetInWords (q : Query) : Option Nat := do
  let before ← Word.sub? q.page 1
  Word.mul? Word.count64 before q.perPage

def totalPagesInWords (q : Query) (total : Nat) : Option Nat :=
  Word.ceilDiv? Word.count64 total q.perPage

/-- The arithmetic of the query never leaves its words, and its page ends within the signed words
that a table counts rows in. -/
structure InWords (q : Query) : Prop where
  offset : q.offsetInWords = some q.offset
  stop_le : q.offset + q.perPage ≤ Word.maxInt64
  totalPages_eq : ∀ total, q.totalPages total = total ⌈/⌉ q.perPage
  totalPages : ∀ total < Word.count64, q.totalPagesInWords total = some (q.totalPages total)

/-- Numbers that are brought into range still fit their signed words. -/
theorem make_le (page perPage : Int32) (filter : String) :
    (make page.toInt perPage.toInt filter).page ≤ Word.maxInt32 ∧
      (make page.toInt perPage.toInt filter).perPage ≤ Word.maxInt32 := by
  have := page.toInt_lt
  have := perPage.toInt_lt
  simp only [make, Word.maxInt32, defaultPerPage]
  constructor <;> split <;> omega

theorem offset_add_perPage (q : Query) : q.offset + q.perPage = q.page * q.perPage := by
  rw [offset, ← Nat.succ_mul, Nat.succ_eq_add_one, Nat.sub_add_cancel q.page_pos]

theorem inWords_make (page perPage : Int32) (filter : String) :
    (make page.toInt perPage.toInt filter).InWords := by
  have le := make_le page perPage filter
  generalize make page.toInt perPage.toInt filter = q at le
  have stop_le : q.offset + q.perPage ≤ Word.maxInt64 :=
    calc q.offset + q.perPage = q.page * q.perPage := q.offset_add_perPage
      _ ≤ Word.maxInt32 * Word.maxInt32 := Nat.mul_le_mul le.1 le.2
      _ ≤ Word.maxInt64 := by decide
  have totalPages_eq total : q.totalPages total = total ⌈/⌉ q.perPage :=
    (Nat.ceilDiv_eq_add_pred_div total q.perPage).symm
  have fits : (q.page - 1) * q.perPage < Word.count64 :=
    Nat.lt_of_le_of_lt (Nat.le_trans (Nat.le_add_right _ _) stop_le) (by decide)
  exact {
    offset := by
      rw [offsetInWords, Word.sub?_eq q.page_pos, Option.bind_eq_bind, Option.bind_some,
        Word.mul?_eq fits]
      rfl
    stop_le := stop_le
    totalPages_eq := totalPages_eq
    totalPages := fun total lt => by
      rw [totalPagesInWords, Word.ceilDiv?_eq q.perPage_pos lt, totalPages_eq] }

end Query

/-! ## Order -/

/-- The records are those of a user's wanted files, each of them once and, but for its labels, as it
is stored, and the newest come first. -/
structure Ledger.PicksInOrder {σ : Type} [Ledger σ] (s : σ) (user : Int) (wanted : Record → Prop)
    (found : List Record) : Prop extends Picks s user wanted found where
  stored : ∀ e ∈ found, ∃ r, record? s e.id = some r ∧ e = { r with labels := e.labels }
  newest : found.Pairwise Record.Newer

theorem Resident.hits_in_order {s : Resident} (sound : Sound s) (user : Int) (q : Query) :
    PicksInOrder s user (q.Finds Text.lower) (s.hits user q) where
  toPicks := hits_picks sound user q
  stored e he := by
    obtain ⟨f, hf, rfl⟩ := List.mem_map.1 (List.mem_filter.1 (List.mem_mergeSort.1 he)).1
    exact ⟨_, record?_of_mem sound hf, rfl⟩
  newest := newestFirst_newer (nodup_newestFirst.1 (hits_picks sound user q).nodup)

theorem Tables.hits_in_order {t : Tables} (sound : Sound t) (user : Int) (pattern : String) :
    PicksInOrder t user (Matches pattern) (t.hits user pattern) where
  toPicks := hits_matching sound user pattern
  stored e he := by
    obtain ⟨r, hr, rfl⟩ := List.mem_map.1 (List.mem_mergeSort.1 he)
    have there := (List.mem_filter.1 (List.mem_filter.1 hr).1).1
    exact ⟨_, record?_of_mem sound there, rfl⟩
  newest := newestFirst_newer (nodup_newestFirst.1 (hits_matching sound user pattern).nodup)

/-! ## Pages -/

namespace Service

variable {σ : Type} [Store σ] [Ledger σ] {s : σ} {user : Int} {perPage : Int32} {filter : String}
  {wanted : Record → Prop} {found : List Record}

/-- A user is shown the wanted files in pages, and whatever page is asked for is one of them. -/
def Pages (s : σ) (user : Int) (perPage : Int32) (filter : String) (wanted : Record → Prop) :
    Prop :=
  ∃ (found : List Record) (pages : Nat → List Record), PicksInOrder s user wanted found ∧
    ∀ page : Int32,
      let q := Query.make page.toInt perPage.toInt filter
      q.Paged found pages ∧ Store.list s user q = .ok (pages q.page, found.length) ∧
        ∃ m, enumerate user ⟨page, perPage, filter⟩ s = .ok m ∧
          m.Tells q (pages q.page) found.length

theorem pages_of_slices (picks : PicksInOrder s user wanted found)
    (list : ∀ q : Query, q.filter = (Query.make 1 perPage.toInt filter).filter →
      Store.list s user q = .ok (q.slice found, found.length)) :
    Pages s user perPage filter wanted := by
  let base := Query.make 1 perPage.toInt filter
  refine ⟨found, fun n => (base.turned (n - 1)).slice found, picks, fun page => ?_⟩
  intro q
  have turned : q = base.turned (q.page - 1) :=
    Query.make_eq_turned page.toInt 1 perPage.toInt filter
  have listed : Store.list s user q =
      .ok ((base.turned (q.page - 1)).slice found, found.length) := by
    rw [list q rfl, ← turned]
  exact ⟨{ base.paged_slice found with }, listed, enumerate_eq listed⟩

end Service

/-! ## Patterns that are too long -/

namespace Tables

variable {t : Tables} {user : Int}

/-- There are rows to search if there is a file for the user. -/
theorem available_ne_nil_iff (sound : Sound t) :
    t.available user ≠ [] ↔ ∃ file, Sees t user file := by
  constructor
  · intro some
    obtain ⟨r, hr⟩ := List.exists_mem_of_ne_nil _ some
    obtain ⟨there, shown⟩ := List.mem_filter.1 hr
    simp only [Bool.and_eq_true, decide_eq_true_eq, Bool.not_eq_true'] at shown
    exact ⟨r.id, _, record?_of_mem sound there, shown.1.1, shown.1.2, shown.2⟩
  · rintro ⟨file, e, he, rfl, complete, visible⟩
    obtain ⟨r, hr, rfl⟩ := Option.map_eq_some_iff.1 he
    refine List.ne_nil_of_mem (List.mem_filter.2 ⟨(mem_of_row? hr).1, ?_⟩)
    simp only [record] at complete visible
    simp [record, complete, visible]

/-- A pattern that may be too long is searched for if there is nothing to search. -/
theorem list_of_nothing {q : Query} (nothing : t.available user = []) : Store.list t user q =
    .ok (q.slice (t.hits user (pattern q)), (t.hits user (pattern q)).length) := by
  simp only [Store.list, Tables.list, hits, nothing, List.isEmpty_nil, Bool.not_true,
    Bool.false_and, Bool.false_eq_true, if_false]

/-- A pattern that is too long is refused as soon as there is something to search. -/
theorem list_of_long {q : Query} (long : Pattern.maxBytes < (pattern q).utf8ByteSize)
    (some : t.available user ≠ []) : Store.list t user q =
      .error (.persistence "SQLite failure: `LIKE or GLOB pattern too complex`") := by
  simp only [Store.list, Tables.list, decide_eq_true long, Bool.and_true, Bool.not_eq_true',
    List.isEmpty_eq_false_iff, if_pos some]

end Tables

namespace Service

theorem pages_of_resident {s : Resident} (sound : Sound s) (user : Int) (perPage : Int32)
    (filter : String) :
    Pages s user perPage filter ((Query.make 1 perPage.toInt filter).Finds Text.lower) := by
  let base := Query.make 1 perPage.toInt filter
  refine pages_of_slices (Resident.hits_in_order sound user base) fun q hq => ?_
  have same : s.hits user q = s.hits user base := by
    simp only [Resident.hits, Query.accepts, hq, base]
  simp only [Store.list, Resident.list, same]

/-- The relational store has too long a pattern to search for among the files of a user. -/
def Refused (t : Tables) (user : Int) (perPage : Int32) (filter : String) : Prop :=
  Pattern.maxBytes < (Tables.pattern (.make 1 perPage.toInt filter)).utf8ByteSize ∧
    ∃ file, Sees t user file

variable {t : Tables}

/-- The listings of the relational store are in pages, if it does not refuse to search. -/
theorem pages_of_tables (sound : Sound t) (searches : ¬Refused t user perPage filter) :
    Pages t user perPage filter
      (Tables.Matches (Tables.pattern (.make 1 perPage.toInt filter))) := by
  let base := Query.make 1 perPage.toInt filter
  refine pages_of_slices (Tables.hits_in_order sound user (Tables.pattern base)) fun q hq => ?_
  have same : Tables.pattern q = Tables.pattern base := by simp only [Tables.pattern, hq, base]
  by_cases short : (Tables.pattern q).utf8ByteSize ≤ Pattern.maxBytes
  · rw [Tables.list_eq_hits t user short, same]
  · have nothing : t.available user = [] := by
      by_contra some
      rw [same] at short
      exact searches ⟨Nat.lt_of_not_le short, (Tables.available_ne_nil_iff sound).1 some⟩
    rw [Tables.list_of_nothing nothing, same]

theorem enumerate_of_refused (sound : Sound t) (refused : Refused t user perPage filter)
    (page : Int32) : enumerate user ⟨page, perPage, filter⟩ t =
      .error (.persistence "SQLite failure: `LIKE or GLOB pattern too complex`") := by
  let q := Query.make page.toInt perPage.toInt filter
  have listed := Tables.list_of_long (q := q) refused.1
    ((Tables.available_ne_nil_iff sound).2 refused.2)
  rw [enumerate, listed]
  rfl

/-- After any calls, and whatever is asked for, no query leaves its words, and both stores list the
files that they find in pages, but for what the relational store refuses to search for. -/
theorem pages_of_calls (calls : List Store.Call) (user : Int) (perPage : Int32) (filter : String) :
    let q := Query.make 1 perPage.toInt filter
    let s := ((⟨{}, []⟩ : Store.History Resident).afterAll calls).store
    let t := ((⟨{}, []⟩ : Store.History Tables).afterAll calls).store
    (∀ page : Int32, (Query.make page.toInt perPage.toInt filter).InWords) ∧
      Pages s user perPage filter (q.Finds Text.lower) ∧
      (¬Refused t user perPage filter →
        Pages t user perPage filter (Tables.Matches (Tables.pattern q))) ∧
      (Refused t user perPage filter → ∀ page, enumerate user ⟨page, perPage, filter⟩ t =
        .error (.persistence "SQLite failure: `LIKE or GLOB pattern too complex`")) := by
  intro q s t
  have left : Sound s := (Resident.accounts_empty.afterAll calls).sound
  have right : Sound t := (Tables.accounts_empty.afterAll calls).sound
  exact ⟨fun page => Query.inWords_make page perPage filter,
    pages_of_resident left user perPage filter, pages_of_tables right,
    enumerate_of_refused right⟩

/-- A filter of as many letters as a pattern may have bytes is refused as soon as the user has a
file, so that no page is shown. -/
theorem not_pages_of_long_filter :
    let calls : List Store.Call := [.create default 1 { filename := "a.txt" }, .complete 1 0]
    let filter := String.ofList (List.replicate Pattern.maxBytes 'a')
    let t := ((⟨{}, []⟩ : Store.History Tables).afterAll calls).store
    ∀ wanted, ¬Pages t 1 10 filter wanted := by
  intro calls filter t wanted ⟨found, pages, _, shown⟩
  have letters : filter.toList = List.replicate Pattern.maxBytes 'a' := String.toList_ofList
  have kept : Text.trim filter.toList = filter.toList := by
    refine Text.trim_of_solid fun c hc => ?_
    rw [letters] at hc
    rw [List.eq_of_mem_replicate hc]
    decide
  have length : filter.toList.length = Pattern.maxBytes := by rw [letters, List.length_replicate]
  have some : filter.toList ≠ [] := List.ne_nil_of_length_pos (length ▸ by decide)
  have long := Tables.lt_pattern (kept.symm ▸ some) 1 (10 : Int32).toInt
  rw [kept, length] at long
  have sound : Sound t := (Tables.accounts_empty.afterAll calls).sound
  have sees : Sees t 1 1 := ⟨_, rfl, rfl, rfl, rfl⟩
  have refused := enumerate_of_refused sound ⟨long, 1, sees⟩ 1
  obtain ⟨-, -, m, answered, -⟩ := shown 1
  cases refused.symm.trans answered

end Service

end Strongbox
