import Strongbox.Text.Split

/-!
# Pieces of a cut text

A text is cut at every item that separates. The pieces are what stands between such items, so a cut
text can be put together again where a piece stands.
-/

namespace Strongbox.Text

variable {α : Type} {p : α → Bool} {s before piece after : List α} {xs ys : List (List α)}

theorem split_eq_splitOn [DecidableEq α] (sep : α) (s : List α) : split sep s = s.splitOn sep := by
  induction s with
  | nil => simp [split]
  | cons c rest ih =>
    obtain ⟨first, others, h⟩ := List.exists_cons_of_ne_nil (List.splitOn_ne_nil sep rest)
    rw [split, List.splitOn_cons_eq_if_modifyHead, ih, h]
    simp

/-- A row of items stands between separators, or at an end of the whole. -/
structure Stands (p : α → Bool) (before piece after : List α) : Prop where
  begins : ∀ c ∈ before.getLast?, p c = true
  ends : ∀ c ∈ after.head?, p c = true
  solid : ∀ c ∈ piece, p c = false

theorem eq_nil_of_splitOnP (h : s.splitOnP p = [[]]) : s = [] := by
  cases s with
  | nil => rfl
  | cons c s =>
    rw [List.splitOnP_cons_eq_if_modifyHead] at h
    split at h
    · exact absurd (List.cons.inj h).2 (List.splitOnP_ne_nil p s)
    · obtain ⟨first, others, hs⟩ := List.exists_cons_of_ne_nil (List.splitOnP_ne_nil p s)
      simp [hs] at h

/-- The last piece of one text and the first of the next are one piece of both together. -/
theorem splitOnP_append {a b u v : List α} (ha : a.splitOnP p = xs ++ [u])
    (hb : b.splitOnP p = v :: ys) : (a ++ b).splitOnP p = xs ++ (u ++ v) :: ys := by
  induction a generalizing xs u with
  | nil =>
    obtain ⟨rfl, rfl⟩ : xs = [] ∧ u = [] := by
      rcases xs with _ | ⟨x, xs⟩ <;> simp_all
    simpa using hb
  | cons c a ih =>
    rw [List.splitOnP_cons_eq_if_modifyHead] at ha
    rw [List.cons_append, List.splitOnP_cons_eq_if_modifyHead]
    split at ha
    · next separates =>
      rw [if_pos separates]
      rcases xs with _ | ⟨x, xs⟩
      · exact absurd (List.cons.inj ha).2 (List.splitOnP_ne_nil p a)
      · obtain ⟨rfl, others⟩ := List.cons.inj ha
        rw [ih others, List.cons_append]
    · next joins =>
      rw [if_neg joins]
      obtain ⟨q, qs, hq⟩ := List.exists_cons_of_ne_nil (List.splitOnP_ne_nil p a)
      rw [hq, List.modifyHead_cons] at ha
      rcases xs with _ | ⟨x, xs⟩
      · obtain ⟨rfl, rfl⟩ := List.cons.inj ha
        rw [ih (show a.splitOnP p = [] ++ [q] from hq)]
        rfl
      · obtain ⟨rfl, rfl⟩ := List.cons.inj ha
        rw [ih (show a.splitOnP p = (q :: xs) ++ [u] from hq)]
        rfl

/-- The last piece of a text is empty if and only if the text ends in a separator, or is empty. -/
theorem exists_splitOnP_concat_iff :
    (∃ xs, s.splitOnP p = xs ++ [[]]) ↔ ∀ c ∈ s.getLast?, p c = true := by
  rcases List.eq_nil_or_concat s with rfl | ⟨s, c, rfl⟩
  · simp
  · rw [List.concat_eq_append, List.getLast?_concat]
    by_cases separates : p c = true
    · simpa [separates] using ⟨s.splitOnP p, List.splitOnP_append_cons s [] separates⟩
    · have front := (List.dropLast_concat_getLast (List.splitOnP_ne_nil p s)).symm
      have single : [c].splitOnP p = [[c]] :=
        List.splitOnP_eq_singleton (by simpa using separates)
      simp only [splitOnP_append front single, Option.mem_some, forall_eq', separates,
        Bool.false_eq_true, iff_false, not_exists]
      intro xs h
      simpa using congrArg List.getLast? h

/-- The first piece of a text is empty if and only if the text begins with a separator, or is
empty. -/
theorem exists_splitOnP_cons_iff :
    (∃ ys, s.splitOnP p = [] :: ys) ↔ ∀ c ∈ s.head?, p c = true := by
  rcases s with _ | ⟨c, s⟩
  · simp
  · obtain ⟨q, qs, hq⟩ := List.exists_cons_of_ne_nil (List.splitOnP_ne_nil p s)
    by_cases separates : p c = true <;>
      simp [List.splitOnP_cons_eq_if_modifyHead, separates, hq]

/-- Each piece of a text is told by what stands before it and after it. Where it begins depends on
the pieces before it, so that they go through the induction. -/
theorem exists_parts_of_splitOnP (h : s.splitOnP p = xs ++ piece :: ys) :
    ∃ before after, s = before ++ piece ++ after ∧ before.splitOnP p = xs ++ [[]] ∧
      after.splitOnP p = [] :: ys ∧ ∀ c ∈ piece, p c = false := by
  induction s generalizing xs piece with
  | nil =>
    obtain ⟨rfl, rfl, rfl⟩ : xs = [] ∧ piece = [] ∧ ys = [] := by
      rcases xs with _ | ⟨x, xs⟩ <;> simp_all
    exact ⟨[], [], rfl, rfl, rfl, by simp⟩
  | cons c s ih =>
    have whole := h
    rw [List.splitOnP_cons_eq_if_modifyHead] at h
    split at h
    · next separates =>
      rcases xs with _ | ⟨x, xs⟩
      · obtain ⟨rfl, -⟩ := List.cons.inj h
        exact ⟨[], c :: s, rfl, rfl, whole, by simp⟩
      · obtain ⟨rfl, others⟩ := List.cons.inj h
        obtain ⟨before, after, rfl, begins, ends, solid⟩ := ih others
        refine ⟨c :: before, after, rfl, ?_, ends, solid⟩
        rw [List.splitOnP_cons_eq_if_modifyHead, if_pos separates, begins, List.cons_append]
    · next joins =>
      obtain ⟨q, qs, hq⟩ := List.exists_cons_of_ne_nil (List.splitOnP_ne_nil p s)
      rw [hq, List.modifyHead_cons] at h
      rcases xs with _ | ⟨x, xs⟩
      · obtain ⟨rfl, rfl⟩ := List.cons.inj h
        have below : s.splitOnP p = [] ++ q :: qs := hq
        obtain ⟨before, after, rfl, begins, ends, solid⟩ := ih below
        obtain rfl := eq_nil_of_splitOnP begins
        exact ⟨[], after, rfl, rfl, ends, List.forall_mem_cons.2 ⟨by simpa using joins, solid⟩⟩
      · obtain ⟨rfl, rfl⟩ := List.cons.inj h
        obtain ⟨before, after, rfl, begins, ends, solid⟩ :=
          ih (show s.splitOnP p = (q :: xs) ++ piece :: ys from hq)
        refine ⟨c :: before, after, rfl, ?_, ends, solid⟩
        rw [List.splitOnP_cons_eq_if_modifyHead, if_neg joins, begins]
        rfl

/-- Each piece of a text stands between separators; the pieces after it are those of what
follows. -/
theorem stands_of_splitOnP (h : s.splitOnP p = xs ++ piece :: ys) :
    ∃ before after, s = before ++ piece ++ after ∧ Stands p before piece after ∧
      after.splitOnP p = [] :: ys := by
  obtain ⟨before, after, whole, begins, ends, solid⟩ := exists_parts_of_splitOnP h
  exact ⟨before, after, whole, ⟨exists_splitOnP_concat_iff.1 ⟨xs, begins⟩,
    exists_splitOnP_cons_iff.1 ⟨ys, ends⟩, solid⟩, ends⟩

/-- What stands between separators is a piece; the pieces after it are those of what follows. -/
theorem Stands.splitOnP_eq (h : Stands p before piece after) : ∃ xs ys,
    (before ++ piece ++ after).splitOnP p = xs ++ piece :: ys ∧ after.splitOnP p = [] :: ys := by
  obtain ⟨xs, begins⟩ := exists_splitOnP_concat_iff.2 h.begins
  obtain ⟨ys, ends⟩ := exists_splitOnP_cons_iff.2 h.ends
  have front : (before ++ piece).splitOnP p = xs ++ [piece] :=
    splitOnP_append begins (List.splitOnP_eq_singleton h.solid)
  refine ⟨xs, ys, ?_, ends⟩
  simpa using splitOnP_append front ends

end Strongbox.Text
