import Mathlib.Data.List.TakeWhile
import Strongbox.Text.Blank

/-!
# Trimmed texts
-/

namespace Strongbox.Text

variable {s : List Char}

theorem trim_append_blanks (s : List Char) : ∃ lead trail, s = lead ++ trim s ++ trail ∧
    ∀ c ∈ lead ++ trail, isBlank c = true := by
  obtain ⟨trail, whole, blank⟩ := trimEnd_append_blanks (s.dropWhile isBlank)
  refine ⟨s.takeWhile isBlank, trail, ?_, List.forall_mem_append.2 ⟨fun c hc => ?_, blank⟩⟩
  · rw [trim, List.append_assoc, ← whole, List.takeWhile_append_dropWhile]
  · exact List.all_eq_true.1 List.all_takeWhile c hc

theorem getLast?_trimEnd : ∀ c ∈ (trimEnd s).getLast?, isBlank c = false := by
  induction s with
  | nil => simp
  | cons d rest ih =>
    rw [trimEnd]
    split
    · split <;> simp_all
    · next kept nonempty =>
      rw [List.getLast?_cons_of_ne_nil nonempty]
      exact ih

theorem not_blank_of_trim : (∀ c ∈ (trim s).head?, isBlank c = false) ∧
    ∀ c ∈ (trim s).getLast?, isBlank c = false := by
  refine ⟨fun c hc => ?_, getLast?_trimEnd⟩
  obtain ⟨tail, whole, -⟩ := trimEnd_append_blanks (s.dropWhile isBlank)
  obtain ⟨rest, kept⟩ := List.head?_eq_some_iff.1 hc
  rw [trim] at kept
  have first := List.head?_dropWhile_not isBlank s
  rw [whole, kept] at first
  simpa using first

/-! ## What is left -/

/-- What is left of a text without the blanks around it. -/
structure IsCore (s core : List Char) : Prop where
  around : ∃ lead trail, s = lead ++ core ++ trail ∧ ∀ c ∈ lead ++ trail, isBlank c = true
  begins : ∀ c ∈ core.head?, isBlank c = false
  ends : ∀ c ∈ core.getLast?, isBlank c = false

theorem isCore_trim (s : List Char) : IsCore s (trim s) :=
  ⟨trim_append_blanks s, not_blank_of_trim.1, not_blank_of_trim.2⟩

/-- Blanks at the end of a text without any are dropped again. -/
theorem trimEnd_append {trail : List Char} (ends : ∀ c ∈ s.getLast?, isBlank c = false)
    (blank : ∀ c ∈ trail, isBlank c = true) : trimEnd (s ++ trail) = s := by
  -- The last character that is no blank is found from the end, and `s` stops there.
  induction s with
  | nil =>
    obtain ⟨dropped, whole, -⟩ := trimEnd_append_blanks trail
    refine List.getLast?_eq_none_iff.1 (Option.eq_none_iff_forall_ne_some.2 fun c last => ?_)
    have solid := getLast?_trimEnd c last
    rw [blank c (whole ▸ List.mem_append_left _ (List.mem_of_getLast? last))] at solid
    cases solid
  | cons c rest ih =>
    have kept : trimEnd (rest ++ trail) = rest := by
      refine ih fun d last => ends d ?_
      rw [List.getLast?_cons_of_ne_nil (List.ne_nil_of_mem (List.mem_of_getLast? last))]
      exact last
    rw [List.cons_append, trimEnd, kept]
    cases rest with
    | nil =>
      rw [ends c rfl]
      rfl
    | cons => rfl

/-- A text is trimmed to the one part of it that is left without the blanks around it. -/
theorem trim_eq_iff {core : List Char} : trim s = core ↔ IsCore s core := by
  constructor
  · rintro rfl
    exact isCore_trim s
  · rintro ⟨⟨lead, trail, rfl, blank⟩, begins, ends⟩
    obtain ⟨before, after⟩ := List.forall_mem_append.1 blank
    rw [trim, List.append_assoc, List.dropWhile_append_of_pos before]
    cases core with
    | nil =>
      rw [List.nil_append, List.dropWhile_eq_nil_iff.2 after]
      rfl
    | cons c rest =>
      have solid : ¬ isBlank c = true := by
        rw [begins c rfl]
        exact Bool.false_ne_true
      rw [List.cons_append, List.dropWhile_cons_of_neg solid]
      exact trimEnd_append ends after

theorem trim_of_ends (begins : ∀ c ∈ s.head?, isBlank c = false)
    (ends : ∀ c ∈ s.getLast?, isBlank c = false) : trim s = s :=
  trim_eq_iff.2 ⟨⟨[], [], by simp, by simp⟩, begins, ends⟩

end Strongbox.Text
