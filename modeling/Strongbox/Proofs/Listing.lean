import Strongbox.Query
import Strongbox.Record

/-!
# The order of listings

A listing shows the newest files first. While the clock does not go back, this is the order of their
numbers, the greatest first, and it does not matter how precisely the clock is read. It shows them
in pages, all of them full but the last.
-/

namespace Strongbox

namespace Moment

variable {a b c : Moment}

/-- One moment is not after another, wherever their clocks stand. -/
def NoLater (a b : Moment) : Prop :=
  a.seconds < b.seconds ∨ a.seconds = b.seconds ∧ a.nanos ≤ b.nanos

theorem NoLater.refl (a : Moment) : a.NoLater a := .inr ⟨rfl, Nat.le_refl _⟩

theorem NoLater.trans (h : a.NoLater b) (h' : b.NoLater c) : a.NoLater c := by
  unfold NoLater at *
  omega

theorem noLater_total (a b : Moment) : a.NoLater b ∨ b.NoLater a := by
  unfold NoLater
  omega

end Moment

namespace Record

variable {a b : Record}

/-- Of two records the later one comes first, and of two made at once the one of higher number. -/
theorem precedes_iff : a.precedes b = true ↔ b.createdAt.NoLater a.createdAt ∧
    (a.createdAt.NoLater b.createdAt → b.id ≤ a.id) := by
  simp only [precedes, Moment.NoLater, Prod.mk.injEq]
  split
  · simp only [decide_eq_true_eq]
    omega
  · split <;> simp only [decide_eq_true_eq] <;> omega

theorem precedes_trans (a b c : Record) (h : a.precedes b = true) (h' : b.precedes c = true) :
    a.precedes c = true := by
  rw [precedes_iff] at *
  refine ⟨h'.1.trans h.1, fun late => ?_⟩
  have := h.2 (late.trans h'.1)
  have := h'.2 (h.1.trans late)
  omega

theorem precedes_total (a b : Record) : (a.precedes b || b.precedes a) = true := by
  rw [Bool.or_eq_true, precedes_iff, precedes_iff]
  have := Moment.noLater_total a.createdAt b.createdAt
  grind

/-- One record is newer than another, or they were made at once and it has the higher number. -/
def Newer (a b : Record) : Prop :=
  b.createdAt.NoLater a.createdAt ∧ (a.createdAt.NoLater b.createdAt → b.id < a.id)

end Record

theorem nodup_newestFirst {l : List Record} :
    ((newestFirst l).map Record.id).Nodup ↔ (l.map Record.id).Nodup :=
  ((List.mergeSort_perm l _).map Record.id).nodup_iff

/-- The newest records are listed first, and of two made at once the one of higher number. -/
theorem newestFirst_newer {l : List Record} (nodup : (l.map Record.id).Nodup) :
    (newestFirst l).Pairwise Record.Newer := by
  have sorted : (newestFirst l).Pairwise fun a b => a.precedes b = true :=
    List.pairwise_mergeSort Record.precedes_trans Record.precedes_total l
  have apart : (newestFirst l).Pairwise fun a b => a.id ≠ b.id :=
    List.pairwise_map.1 (nodup_newestFirst.2 nodup)
  refine (sorted.and apart).imp fun {a b} h => ?_
  obtain ⟨later, above⟩ := Record.precedes_iff.1 h.1
  refine ⟨later, fun early => ?_⟩
  have := above early
  have := h.2
  omega

/-- Records numbered in the order in which they were made are listed by number. -/
theorem descending_newestFirst {l : List Record} (nodup : (l.map (·.id)).Nodup)
    (timely : ∀ a ∈ l, ∀ b ∈ l, a.id < b.id → a.createdAt.NoLater b.createdAt) :
    (newestFirst l).Pairwise fun a b => b.id < a.id := by
  have perm : (newestFirst l).Perm l := List.mergeSort_perm l _
  have apart : (newestFirst l).Pairwise fun a b => a.id ≠ b.id :=
    List.pairwise_map.1 (nodup_newestFirst.2 nodup)
  refine ((newestFirst_newer nodup).and apart).imp_of_mem fun {a b} ha hb h => ?_
  obtain ⟨newer, apart⟩ := h
  by_cases below : a.id < b.id
  · exact newer.2 (timely a (perm.mem_iff.1 ha) b (perm.mem_iff.1 hb) below)
  · omega

/-! ## Pages -/

namespace Query

variable {α β : Type}

/-- A page of what is made of the items is made of the items of the page. -/
theorem slice_map (q : Query) (f : α → β) (items : List α) :
    q.slice (items.map f) = (q.slice items).map f := by
  rw [slice, slice, ← List.map_drop, ← List.map_take]

/-- The query for the page that comes after `k` others. -/
def turned (q : Query) (k : Nat) : Query := { q with page := k + 1, page_pos := k.succ_pos }

/-- The first pages, one after another, are the first items. -/
theorem flatMap_slice (q : Query) (items : List α) (n : Nat) :
    (List.range n).flatMap (fun k => (q.turned k).slice items) = items.take (n * q.perPage) := by
  induction n with
  | zero => simp
  | succ n ih =>
    have last : (q.turned n).slice items = (items.drop (n * q.perPage)).take q.perPage := rfl
    rw [List.range_succ, List.flatMap_append, ih, List.flatMap_singleton, last, Nat.succ_mul,
      List.take_add]

theorem lt_totalPages_iff (q : Query) {k total : Nat} :
    k < q.totalPages total ↔ k * q.perPage < total := by
  have pos := q.perPage_pos
  show k + 1 ≤ (total + q.perPage - 1) / q.perPage ↔ _
  rw [Nat.le_div_iff_mul_le pos, Nat.succ_mul]
  omega

theorem le_totalPages (q : Query) (total : Nat) : total ≤ q.totalPages total * q.perPage :=
  Nat.le_of_not_lt (mt q.lt_totalPages_iff.2 (Nat.lt_irrefl _))

/-- The pages, of which the first has number one, hold the items: each has as many as it can have,
and the last one has the rest. -/
structure Paged (q : Query) (items : List α) (pages : Nat → List α) : Prop where
  full : ∀ n, 0 < n → n < q.totalPages items.length → (pages n).length = q.perPage
  last : ∀ n, 0 < n → n = q.totalPages items.length →
    (pages n).length = items.length - (n - 1) * q.perPage ∧
      0 < (pages n).length ∧ (pages n).length ≤ q.perPage
  beyond : ∀ n, q.totalPages items.length < n → pages n = []
  joined : (List.range' 1 (q.totalPages items.length)).flatMap pages = items

theorem length_slice_turned (q : Query) (k : Nat) (items : List α) :
    ((q.turned k).slice items).length = min q.perPage (items.length - k * q.perPage) := by
  rw [slice, List.length_take, List.length_drop]
  rfl

theorem paged_slice (q : Query) (items : List α) :
    q.Paged items fun n => (q.turned (n - 1)).slice items where
  full n pos lt := by
    obtain ⟨k, rfl⟩ := Nat.exists_eq_succ_of_ne_zero (Nat.ne_of_gt pos)
    have more := q.lt_totalPages_iff.1 lt
    rw [Nat.succ_mul] at more
    rw [Nat.succ_sub_one, length_slice_turned]
    omega
  last n pos eq := by
    obtain ⟨k, rfl⟩ := Nat.exists_eq_succ_of_ne_zero (Nat.ne_of_gt pos)
    have some := q.lt_totalPages_iff.1 (Nat.lt_of_succ_le (Nat.le_of_eq eq))
    have all := q.le_totalPages items.length
    rw [← eq, Nat.succ_mul] at all
    have pos := q.perPage_pos
    rw [Nat.succ_sub_one, length_slice_turned]
    omega
  beyond n lt := by
    have all := mt q.lt_totalPages_iff.2 (Nat.not_lt.2 (Nat.le_sub_one_of_lt lt))
    apply List.eq_nil_of_length_eq_zero
    rw [length_slice_turned]
    omega
  joined := by
    rw [List.range'_eq_map_range, List.flatMap_map]
    simp only [Nat.add_sub_cancel_left]
    rw [q.flatMap_slice, List.take_of_length_le (q.le_totalPages _)]

/-- Queries for two pages of a listing differ by their pages. -/
theorem make_eq_turned (page page' perPage : Int) (filter : String) : make page perPage filter =
    (make page' perPage filter).turned ((make page perPage filter).page - 1) := by
  simp only [turned, Nat.sub_add_cancel (make page perPage filter).page_pos]
  rfl

end Query

end Strongbox
