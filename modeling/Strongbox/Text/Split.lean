/-!
# Cutting and searching text
-/

namespace Strongbox.Text

variable {α : Type} [DecidableEq α]

/-- The pieces between separators; there is always at least one. -/
def split (sep : α) : List α → List (List α)
  | [] => [[]]
  | c :: rest =>
    if c = sep then [] :: split sep rest
    else match split sep rest with
      | [] => [[c]]
      | piece :: pieces => (c :: piece) :: pieces

def cut? (sep : α) : List α → Option (List α × List α)
  | [] => none
  | c :: rest =>
    if c = sep then some ([], rest)
    else (cut? sep rest).map fun (before, after) => (c :: before, after)

def cutLast? (sep : α) : List α → Option (List α × List α)
  | [] => none
  | c :: rest =>
    match cutLast? sep rest with
    | some (before, after) => some (c :: before, after)
    | none => if c = sep then some ([], rest) else none

def holds (needle : List α) : List α → Bool
  | [] => needle.isEmpty
  | c :: rest => needle.isPrefixOf (c :: rest) || holds needle rest

theorem cutLast?_eq_none_iff (sep : α) (s : List α) : cutLast? sep s = none ↔ sep ∉ s := by
  induction s with
  | nil => simp [cutLast?]
  | cons c rest ih =>
    unfold cutLast?
    cases h : cutLast? sep rest with
    | some pair =>
      have : sep ∈ rest := Classical.not_not.1 fun hn => by simp [ih.2 hn] at h
      simp [this]
    | none =>
      have : sep ∉ rest := ih.1 h
      by_cases hc : sep = c <;> simp [hc, this, Ne.symm]

/-- The cut falls at a separator, and none stands after it. -/
theorem cutLast?_eq_some_iff (sep : α) (s before after : List α) :
    cutLast? sep s = some (before, after) ↔ s = before ++ sep :: after ∧ sep ∉ after := by
  induction s generalizing before with
  | nil => simp [cutLast?]
  | cons c rest ih =>
    unfold cutLast?
    cases h : cutLast? sep rest with
    | some pair =>
      have hin : sep ∈ rest :=
        Classical.not_not.1 fun hn => by simp [(cutLast?_eq_none_iff sep rest).2 hn] at h
      cases before with
      | nil => simp; rintro - rfl; exact hin
      | cons x before =>
        have := ih before
        simp only [h, Option.some.injEq] at this
        simp [Prod.ext_iff, and_assoc, ← this]
    | none =>
      have hnot := (cutLast?_eq_none_iff sep rest).1 h
      cases before with
      | nil =>
        by_cases hc : c = sep
        · simp only [hc, if_true, Option.some.injEq, Prod.mk.injEq, true_and, List.nil_append,
            List.cons.injEq]
          exact ⟨fun he => ⟨he, he ▸ hnot⟩, And.left⟩
        · simp [hc]
      | cons x before =>
        have : rest ≠ before ++ sep :: after := fun he => hnot (by simp [he])
        by_cases hc : c = sep <;> simp [hc, this]

theorem split_ne_nil (sep : α) (s : List α) : split sep s ≠ [] := by
  cases s with
  | nil => simp [split]
  | cons c rest =>
    unfold split
    split
    · simp
    · split <;> simp

theorem holds_iff_isInfix (needle s : List α) : holds needle s = true ↔ needle <:+: s := by
  induction s with
  | nil => simp [holds]
  | cons c rest ih =>
    rw [holds, Bool.or_eq_true, List.isPrefixOf_iff_prefix, ih, List.infix_cons_iff]

end Strongbox.Text
