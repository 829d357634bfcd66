import Strongbox.Name
import Strongbox.Proofs.Tree

/-!
# Safe file names
-/

namespace Strongbox

theorem Text.not_mem_of_mem_split {α : Type} [DecidableEq α] {sep : α} {s piece : List α}
    (h : piece ∈ split sep s) : sep ∉ piece := by
  induction s generalizing piece with
  | nil => simp_all [split]
  | cons c rest ih =>
    unfold split at h
    split at h
    · rcases List.mem_cons.1 h with rfl | h
      · exact List.not_mem_nil
      · exact ih h
    · rename_i other
      split at h
      · rename_i nothing
        exact absurd nothing (split_ne_nil sep rest)
      · rename_i first others heq
        rcases List.mem_cons.1 h with rfl | h
        · have inside : sep ∉ first := ih (heq ▸ List.mem_cons_self)
          exact fun hmem => (List.mem_cons.1 hmem).elim (fun same => other same.symm) inside
        · exact ih (heq ▸ List.mem_cons_of_mem _ h)

theorem Text.mem_of_mem_trim {c : Char} {s : List Char} (h : c ∈ trim s) : c ∈ s := by
  obtain ⟨tail, heq, -⟩ := trimEnd_append_blanks (s.dropWhile isBlank)
  have kept : c ∈ s.dropWhile isBlank := heq ▸ List.mem_append_left tail h
  exact (List.dropWhile_sublist isBlank).subset kept

/-- A name that was made safe stays within its directory, whatever it was made from. -/
theorem Name.isStep_of_safe {name kept : String} (h : safe name = .ok kept) : IsStep kept := by
  unfold safe at h
  split at h
  · rename_i k hk
    cases h
    unfold bare? at hk
    split at hk
    · cases hk
    · rename_i part last
      dsimp only at hk
      split at hk <;> cases hk
      rename_i usable
      simp only [isDots, Bool.or_eq_true, List.isEmpty_iff, beq_iff_eq, not_or] at usable
      obtain ⟨nonempty, not_here, not_up⟩ := usable
      have inside : part ∈ Text.split '/' (slashed name.toList) :=
        (List.mem_filter.1 (List.mem_of_getLast? last)).1
      have differs : ∀ s : String, Text.trim part ≠ s.toList →
          String.ofList (Text.trim part) ≠ s := by
        rintro _ differ rfl
        exact differ String.toList_ofList.symm
      refine ⟨differs _ nonempty, differs _ not_here, differs _ not_up, ?_⟩
      rw [String.toList_ofList]
      exact fun slash => Text.not_mem_of_mem_split inside (Text.mem_of_mem_trim slash)
  · cases h

end Strongbox
