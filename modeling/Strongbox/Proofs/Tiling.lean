import Strongbox.Span

/-!
# Spans in a row

Spans that follow one another without gap or overlap hold every number between their two ends once.
-/

namespace Strongbox.Span

def indices (s : Span) : List Nat := List.range' s.start s.length

theorem mem_indices {s : Span} {i : Nat} : i ∈ s.indices ↔ i ∈ s := by
  rw [indices, List.mem_range'_1, length, mem_def]
  omega

theorem indices_of_isEmpty {s : Span} (h : s.isEmpty = true) : s.indices = [] :=
  List.eq_nil_iff_forall_not_mem.2 fun i hi => isEmpty_iff.1 h i (mem_indices.1 hi)

@[simp] theorem length_indices (s : Span) : s.indices.length = s.length :=
  List.length_range'

/-- The numbers of a span that stays below `n` are those below `n` that are in it. -/
theorem filter_range {s : Span} {n : Nat} (h : s.stop ≤ n) :
    ((List.range n).filter (· ∈ s)).Perm s.indices := by
  have nodup : s.indices.Nodup := List.nodup_range'
  apply (List.perm_ext_iff_of_nodup (List.nodup_range.filter _) nodup).2
  intro i
  rw [List.mem_filter, List.mem_range, decide_eq_true_iff, mem_indices, mem_def]
  omega

/-- The spans follow one another, the first from `a` and the last to `b`. -/
inductive Tiles : (a : Nat) → List Span → (b : Nat) → Prop where
  | nil (a : Nat) : Tiles a [] a
  | cons {s : Span} {rest : List Span} {b : Nat} (ordered : s.start ≤ s.stop)
      (tail : Tiles s.stop rest b) : Tiles s.start (s :: rest) b

namespace Tiles

variable {a b c : Nat} {l m : List Span} {s : Span}

theorem le (h : Tiles a l b) : a ≤ b := by
  induction h with
  | nil => exact Nat.le_refl _
  | cons ordered _ ih => exact Nat.le_trans ordered ih

theorem single (h : s.start ≤ s.stop) : Tiles s.start [s] s.stop := .cons h (.nil _)

theorem append (h : Tiles a l b) (h' : Tiles b m c) : Tiles a (l ++ m) c := by
  induction h with
  | nil => exact h'
  | cons ordered _ ih => exact .cons ordered (ih h')

theorem within (h : Tiles a l b) (hs : s ∈ l) : a ≤ s.start ∧ s.start ≤ s.stop ∧ s.stop ≤ b := by
  induction h with
  | nil => cases hs
  | cons ordered tail ih =>
    rcases List.mem_cons.1 hs with rfl | hs
    · exact ⟨Nat.le_refl _, ordered, tail.le⟩
    · obtain ⟨after, rest⟩ := ih hs
      exact ⟨Nat.le_trans ordered after, rest⟩

/-- Spans in a row hold the numbers between the two ends, in order, each of them once. -/
theorem indices (h : Tiles a l b) : l.flatMap Span.indices = List.range' a (b - a) := by
  induction h with
  | nil => simp
  | @cons s rest b ordered tail ih =>
    have whole : b - s.start = s.length + (b - s.stop) := by
      have := tail.le
      rw [length]
      omega
    have next : s.stop = s.start + s.length := by
      rw [length]
      omega
    rw [List.flatMap_cons, ih, whole, ← List.range'_append_1, Span.indices, ← next]

theorem indices_of_zero (h : Tiles 0 l b) : l.flatMap Span.indices = List.range b := by
  rw [h.indices, Nat.sub_zero, List.range_eq_range']

end Tiles

end Strongbox.Span
