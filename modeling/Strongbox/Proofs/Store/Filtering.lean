import Strongbox.Proofs.Listing
import Strongbox.Proofs.Store.History
import Strongbox.Proofs.Text.Lower
import Strongbox.Proofs.Twins
import Strongbox.Service

/-!
# What listings find

Both stores list the files with a field that holds the filter. The resident store compares texts in
lower case, the relational store by their basic letters only, and so they find the same files where
no other letter has case.

## Main definitions

* `Query.Finds`: some field of a record holds the filter, compared in some way.
* `Ledger.Picks`: what a listing is to find.
* `Tables.Matches`, `Tables.hits`: what matches a pattern.
* `Text.IsBasic`: only the basic letters of a text have case.

## Main statements

* `Resident.list_picks`, `Tables.list_picks`: what each store finds.
* `found_alike`: what two stores find that hold the same files.
-/

namespace Strongbox

open Ledger

/-- Some field holds the filter, if there is one, where `view` is what texts are compared by. -/
def Query.Finds (q : Query) (view : List Char → List Char) (r : Record) : Prop :=
  ∀ f, q.filter = some f → ∃ field ∈ r.fields, view f.toList <:+: view field.toList

namespace Ledger

variable {σ : Type} [Ledger σ] {s : σ} {user : Int} {wanted : Record → Prop} {l : List Record}

/-- The records are those of a user's wanted files, as they are listed, each of them once. -/
structure Picks (s : σ) (user : Int) (wanted : Record → Prop) (found : List Record) : Prop where
  nodup : (found.map Record.id).Nodup
  mem_iff : ∀ file, file ∈ found.map Record.id ↔
    ∃ r, record? s file = some r ∧ r.owner = user ∧ r.isAvailable = true ∧ wanted r
  shown : ∀ e ∈ found, ∃ r, record? s e.id = some r ∧ e.listItem = r.listItem

theorem Picks.sorted (picks : Picks s user wanted l) : Picks s user wanted (newestFirst l) := by
  have perm : (newestFirst l).Perm l := List.mergeSort_perm l _
  constructor
  · exact nodup_newestFirst.2 picks.nodup
  · intro file
    rw [(perm.map _).mem_iff]
    exact picks.mem_iff file
  · exact fun e he => picks.shown e (perm.mem_iff.1 he)

theorem Picks.congr {wanted' : Record → Prop} (picks : Picks s user wanted l)
    (same : ∀ file r, record? s file = some r → (wanted r ↔ wanted' r)) :
    Picks s user wanted' l where
  nodup := picks.nodup
  mem_iff file := by
    rw [picks.mem_iff]
    exact exists_congr fun r => and_congr_right fun hr =>
      and_congr_right' (and_congr_right' (same file r hr))
  shown := picks.shown

end Ledger

/-! ## The resident store -/

theorem Query.accepts_iff (q : Query) (r : Record) :
    q.accepts r.fields = true ↔ q.Finds Text.lower r := by
  cases hf : q.filter with
  | none => simp [accepts, Finds, hf]
  | some f => simp [accepts, Finds, hf, Text.holds_iff_isInfix]

/-- The resident store finds the files with a field that holds the filter in lower case. -/
theorem Resident.hits_picks {s : Resident} (sound : Sound s) (user : Int) (q : Query) :
    Picks s user (q.Finds Text.lower) (s.hits user q) := by
  refine .sorted ?_
  have mem_iff : ∀ r, r ∈ (s.files.map (·.record)).filter (fun r =>
      r.owner = user && r.isAvailable && q.accepts r.fields) ↔ (∃ f ∈ s.files, f.record = r) ∧
        r.owner = user ∧ r.isAvailable = true ∧ q.Finds Text.lower r := by
    simp [List.mem_filter, Query.accepts_iff, and_assoc]
  constructor
  · refine List.Nodup.sublist (List.filter_sublist.map _) ?_
    rw [List.map_map]
    exact sound.nodup
  · intro file
    rw [List.mem_map]
    constructor
    · rintro ⟨r, hr, rfl⟩
      obtain ⟨⟨f, hf, rfl⟩, picked⟩ := (mem_iff r).1 hr
      exact ⟨f.record, record?_of_mem sound hf, picked⟩
    · rintro ⟨r, hr, picked⟩
      obtain ⟨f, hf, rfl⟩ := Option.map_eq_some_iff.1 hr
      obtain ⟨hmem, rfl⟩ := mem_of_file? hf
      exact ⟨f.record, (mem_iff _).2 ⟨⟨f, hmem, rfl⟩, picked⟩, rfl⟩
  · intro e he
    obtain ⟨⟨f, hf, rfl⟩, -⟩ := (mem_iff e).1 he
    exact ⟨f.record, record?_of_mem sound hf, rfl⟩

theorem Resident.list_picks {s : Resident} (sound : Sound s) (user : Int) (q : Query) :
    ∃ found, Store.list s user q = .ok (q.slice found, found.length) ∧
      Picks s user (q.Finds Text.lower) found :=
  ⟨s.hits user q, rfl, hits_picks sound user q⟩

/-! ## The relational store -/

namespace Tables

theorem visible_readText (s : String) : Pattern.visible (readText s) = Pattern.visible s := by
  simp [readText, Pattern.visible, List.takeWhile_takeWhile]

/-- Patterns are compared with the texts of a row as they are read back. -/
theorem rowAccepts_eq (t : Tables) (pattern : String) (r : FileRow) :
    t.rowAccepts pattern r = (record r (t.labelsOf r.id)).fields.any (Pattern.accepts pattern) := by
  have same : ∀ s, Pattern.accepts pattern (readText s) = Pattern.accepts pattern s := fun s => by
    rw [Pattern.accepts, visible_readText]
    rfl
  simp [rowAccepts, Record.fields, record, labelsOf, same, List.any_flatMap, Bool.or_assoc]

theorem visible_field {r : FileRow} {t : Tables} {field : String}
    (h : field ∈ (record r (t.labelsOf r.id)).fields) : Pattern.visible field = field.toList := by
  have read : ∃ s, field = readText s := by
    simp only [Record.fields, record, labelsOf, List.mem_append, List.mem_cons, List.mem_flatMap,
      List.mem_map] at h
    grind
  obtain ⟨s, rfl⟩ := read
  rw [visible_readText, readText, String.toList_ofList]

/-- Some text that is told of the record matches the pattern. -/
def Matches (pattern : String) (r : Record) : Prop :=
  r.fields.any (Pattern.accepts pattern) = true

/-- A pattern that is not cut at a null character matches what is to be found. -/
theorem matches_iff {q : Query} (plain : ∀ f, q.filter = some f → '\x00' ∉ f.toList) (t : Tables)
    (r : FileRow) : Matches (pattern q) (record r (t.labelsOf r.id)) ↔
      q.Finds (·.map Pattern.fold) (record r (t.labelsOf r.id)) := by
  rw [Matches, List.any_eq_true]
  cases hf : q.filter with
  | none =>
    simp [pattern, Query.Finds, hf, Pattern.accepts_any, Record.fields]
  | some f =>
    simp only [pattern, Query.Finds, hf, Option.some.injEq, forall_eq']
    refine exists_congr fun field => and_congr_right fun there => ?_
    rw [Pattern.accepts_containing_iff (plain f hf), visible_field there]

def hits (t : Tables) (user : Int) (pattern : String) : List Record :=
  newestFirst (((t.available user).filter (t.rowAccepts pattern)).map (record · []))

/-- The relational store lists pages of what matches the pattern. -/
theorem list_eq_hits (t : Tables) (user : Int) {q : Query}
    (short : (pattern q).utf8ByteSize ≤ Pattern.maxBytes) :
    Store.list t user q =
      .ok (q.slice (t.hits user (pattern q)), (t.hits user (pattern q)).length) := by
  simp only [Store.list, Tables.list, decide_eq_false (Nat.not_lt.2 short), Bool.and_false]
  rfl

/-- The records of a listing are those of the files with a text that matches the pattern. -/
theorem hits_matching {t : Tables} (sound : Sound t) (user : Int) (pattern : String) :
    Picks t user (Matches pattern) (t.hits user pattern) := by
  refine .sorted ?_
  have mem_iff : ∀ r, r ∈ (t.available user).filter (t.rowAccepts pattern) ↔ r ∈ t.files ∧
      r.owner = user ∧ (record r []).isAvailable = true ∧
        Matches pattern (record r (t.labelsOf r.id)) := by
    intro r
    rw [List.mem_filter, rowAccepts_eq, available, List.mem_filter]
    simp only [Bool.and_eq_true, decide_eq_true_eq, Record.isAvailable, and_assoc]
    rfl
  constructor
  · rw [List.map_map]
    exact sound.nodup.sublist ((List.filter_sublist.trans List.filter_sublist).map _)
  · intro file
    simp only [List.map_map, List.mem_map]
    constructor
    · rintro ⟨r, hr, rfl⟩
      obtain ⟨hmem, picked⟩ := (mem_iff r).1 hr
      exact ⟨_, record?_of_mem sound hmem, picked⟩
    · rintro ⟨e, he, picked⟩
      obtain ⟨r, hr, rfl⟩ := Option.map_eq_some_iff.1 he
      obtain ⟨hmem, rfl⟩ := mem_of_row? hr
      exact ⟨r, (mem_iff r).2 ⟨hmem, picked⟩, rfl⟩
  · intro e he
    obtain ⟨r, hr, rfl⟩ := List.mem_map.1 he
    exact ⟨_, record?_of_mem sound ((mem_iff r).1 hr).1, rfl⟩

/-- What matches the pattern of a query are the files with a field that holds the filter, where only
the case of basic letters does not count. -/
theorem hits_picks {t : Tables} (sound : Sound t) (user : Int) {q : Query}
    (plain : ∀ f, q.filter = some f → '\x00' ∉ f.toList) :
    Picks t user (q.Finds (·.map Pattern.fold)) (t.hits user (pattern q)) := by
  refine (hits_matching sound user (pattern q)).congr fun file e he => ?_
  obtain ⟨r, hr, rfl⟩ := Option.map_eq_some_iff.1 he
  obtain ⟨-, rfl⟩ := mem_of_row? hr
  exact matches_iff plain t r

/-- The relational store finds the files with a field that holds the filter, where only the case of
basic letters does not count. -/
theorem list_picks {t : Tables} (sound : Sound t) (user : Int) {q : Query}
    (plain : ∀ f, q.filter = some f → '\x00' ∉ f.toList)
    (short : (pattern q).utf8ByteSize ≤ Pattern.maxBytes) :
    ∃ found, Store.list t user q = .ok (q.slice found, found.length) ∧
      Picks t user (q.Finds (·.map Pattern.fold)) found :=
  ⟨t.hits user (pattern q), list_eq_hits t user short, hits_picks sound user plain⟩

end Tables

/-! ## Both stores -/

/-- Only the basic letters of a text have case, and no character of it is taken for another. -/
def Text.IsBasic (s : List Char) : Prop := ∀ c ∈ s, c ≠ 'Σ' ∧ lowerChar c = [Pattern.fold c]

/-- Texts of which only the basic letters have case are compared alike in both ways. -/
theorem Text.lower_of_isBasic {s : List Char} (basic : IsBasic s) :
    lower s = s.map Pattern.fold :=
  lower_eq_map basic

theorem Text.isBasic_of_ascii {s : List Char} (ascii : s.all (·.toNat < 128) = true) :
    IsBasic s := by
  have own : ∀ n < 128, Pattern.fold (Char.ofNat n) = (Char.ofNat n).toLower := by decide +kernel
  intro c hc
  have lt : c.toNat < 128 := of_decide_eq_true (List.all_eq_true.1 ascii c hc)
  obtain ⟨sigma, small⟩ := lowerChar_of_ascii lt
  have same := own c.toNat lt
  rw [Char.ofNat_toNat] at same
  exact ⟨sigma, by rw [small, same]⟩

/-- No text of a user's available files has a letter with case, but for the basic ones. -/
def Ledger.Basic {σ : Type} [Ledger σ] (s : σ) (user : Int) : Prop := ∀ file r,
  record? s file = some r → r.owner = user → r.isAvailable = true →
  ∀ field ∈ r.fields, Text.IsBasic field.toList

theorem Query.finds_iff_of_basic {q : Query} {r : Record}
    (filter : ∀ f, q.filter = some f → Text.IsBasic f.toList)
    (fields : ∀ field ∈ r.fields, Text.IsBasic field.toList) :
    q.Finds Text.lower r ↔ q.Finds (·.map Pattern.fold) r := by
  refine forall_congr' fun f => forall_congr' fun hf => exists_congr fun field =>
    and_congr_right fun there => ?_
  rw [Text.lower_of_isBasic (filter f hf), Text.lower_of_isBasic (fields field there)]

/-- Two stores that hold the same files find, each in its own way of comparing texts, what has a
field that holds the filter. They find the same files where only basic letters have case. -/
theorem found_alike {s : Resident} {t : Tables} (left : Sound s) (right : Sound t)
    (same : ∀ file, Option.Rel Record.Concurs (record? s file) (record? t file)) (user : Int)
    (q : Query) (plain : ∀ f, q.filter = some f → '\x00' ∉ f.toList)
    (short : (Tables.pattern q).utf8ByteSize ≤ Pattern.maxBytes) :
    ∃ found found', Store.list s user q = .ok (q.slice found, found.length) ∧
      Store.list t user q = .ok (q.slice found', found'.length) ∧
      Picks s user (q.Finds Text.lower) found ∧
      Picks t user (q.Finds (·.map Pattern.fold)) found' ∧
      ((∀ f, q.filter = some f → Text.IsBasic f.toList) → Basic s user →
        (found.map Record.id).Perm (found'.map Record.id)) := by
  obtain ⟨found, hs, picks⟩ := Resident.list_picks left user q
  obtain ⟨found', ht, picks'⟩ := Tables.list_picks right user plain short
  refine ⟨found, found', hs, ht, picks, picks', fun filter basic => ?_⟩
  refine (List.perm_ext_iff_of_nodup picks.nodup picks'.nodup).2 fun file => ?_
  rw [picks.mem_iff, picks'.mem_iff]
  have same := same file
  have basic := basic file
  generalize record? s file = a at same basic
  generalize record? t file = b at same
  cases same with
  | none => simp
  | @some r r' concur =>
    have owner_eq : r'.owner = r.owner := by rw [concur]
    have available_eq : r'.isAvailable = r.isAvailable := by rw [concur]; rfl
    have fields_eq : r'.fields = r.fields := by rw [concur]; rfl
    have finds_iff : q.Finds (·.map Pattern.fold) r' ↔ q.Finds (·.map Pattern.fold) r := by
      simp only [Query.Finds, fields_eq]
    simp only [Option.some.injEq, exists_eq_left', owner_eq, available_eq, finds_iff]
    exact and_congr_right fun owned => and_congr_right fun available =>
      Query.finds_iff_of_basic filter (basic r rfl owned available)

/-- A file in both stores is found by its name in the other case. -/
theorem found_alike_of_one_file :
    let s : Resident :=
      ⟨[⟨Record.ofDraft 1 5 { filename := "A.txt" } default [] |>.completed 0, []⟩], 1, 0⟩
    let t : Tables := { files := [⟨1, 5, "A.txt", "", 0, "", 0, 0, true, false, 0⟩], lastFile := 1 }
    let q := Query.make 1 10 "a"
    ∃ found found', Store.list s 5 q = .ok (q.slice found, found.length) ∧
      Store.list t 5 q = .ok (q.slice found', found'.length) ∧
      1 ∈ found.map Record.id ∧ (found.map Record.id).Perm (found'.map Record.id) := by
  intro s t q
  have filter : q.filter = some "a" := by decide +kernel
  have left : Sound s := by
    refine ⟨by decide, ?_, ?_⟩ <;> simp [s, StoredFile.id, Record.ofDraft, Record.completed]
  have right : Sound t := by
    refine ⟨by decide, ?_, ?_, ?_, by decide⟩ <;> simp [t]
  have same : ∀ file, Option.Rel Record.Concurs (record? s file) (record? t file) := by
    intro file
    by_cases h : file = 1
    · subst h
      exact .some (show _ = _ by decide +kernel)
    · have missing : record? s file = none := by
        simp [Resident.ledger_record?, Resident.file?, s, Record.ofDraft, Record.completed,
          Ne.symm h]
      have missing' : record? t file = none := by
        simp [Tables.ledger_record?, Tables.row?, t, Ne.symm h]
      rw [missing, missing']
      exact .none
  have basic : Basic s 5 := by
    intro file r hr _ _ field there
    obtain ⟨f, hf, rfl⟩ := Option.map_eq_some_iff.1 hr
    rw [List.mem_singleton.1 (Resident.mem_of_file? hf).1] at there
    have ascii : ["A.txt", "", ""].all (·.toList.all (·.toNat < 128)) = true := by decide
    exact Text.isBasic_of_ascii (List.all_eq_true.1 ascii field there)
  have letter : ∀ f, q.filter = some f → f = "a" := fun f hf =>
    Option.some.inj (hf.symm.trans filter)
  obtain ⟨found, found', hs, ht, picks, -, alike⟩ := found_alike left right same 5 q
    (fun f hf => letter f hf ▸ by decide) (by decide +kernel)
  have hit : 1 ∈ found.map Record.id :=
    (picks.mem_iff 1).2 ⟨_, rfl, rfl, rfl, (q.accepts_iff _).1 (by decide +kernel)⟩
  exact ⟨found, found', hs, ht, hit,
    alike (fun f hf => letter f hf ▸ Text.isBasic_of_ascii (by decide)) basic⟩

/-- An accented letter has case for one store only. -/
example :
    let file : Draft := { filename := "É.txt" }
    let calls : List Store.Call := [.create default 5 file, .complete 1 0]
    let total {σ : Type} [Store σ] (s : σ) : Option Nat :=
      (Store.list s 5 (.make 1 10 "é")).toOption.map (·.2)
    (total ((⟨{}, []⟩ : Store.History Resident).afterAll calls).store,
      total ((⟨{}, []⟩ : Store.History Tables).afterAll calls).store) = (some 1, some 0) := by
  decide +kernel

end Strongbox
