import Strongbox.Text.CodePoints

/-!
# Blanks

White space and trimming.
-/

namespace Strongbox.Text

/-- Where the set of white-space code points begins and ends. -/
def blankFlips : Flips :=
  [0x9, 0xe, 0x20, 0x21, 0x85, 0x86, 0xa0, 0xa1, 0x1680, 0x1681, 0x2000, 0x200b, 0x2028, 0x202a,
   0x202f, 0x2030, 0x205f, 0x2060, 0x3000, 0x3001]

def isBlank (c : Char) : Bool := blankFlips.covers c.toNat

def trimEnd : List Char → List Char
  | [] => []
  | c :: rest =>
    match trimEnd rest with
    | [] => if isBlank c then [] else [c]
    | kept => c :: kept

def trim (s : List Char) : List Char := trimEnd (s.dropWhile isBlank)

@[simp] theorem trimEnd_nil : trimEnd [] = [] := rfl

@[simp] theorem trim_nil : trim [] = [] := rfl

/-- Trimming the end drops a run of blanks and nothing else. -/
theorem trimEnd_append_blanks (s : List Char) :
    ∃ tail, s = trimEnd s ++ tail ∧ ∀ c ∈ tail, isBlank c = true := by
  induction s with
  | nil => exact ⟨[], by simp⟩
  | cons c rest ih =>
    obtain ⟨tail, htail, hblank⟩ := ih
    unfold trimEnd
    split
    · rename_i hnil
      rw [hnil, List.nil_append] at htail
      subst htail
      by_cases hc : isBlank c = true
      · exact ⟨c :: rest, by simp [hc], by simpa [hc] using hblank⟩
      · exact ⟨rest, by simp [hc], hblank⟩
    · exact ⟨tail, by rw [List.cons_append, ← htail], hblank⟩

theorem trim_of_solid {s : List Char} (solid : ∀ c ∈ s, isBlank c = false) : trim s = s := by
  have begun : s.dropWhile isBlank = s := by
    cases s with
    | nil => rfl
    | cons c rest => rw [List.dropWhile_cons, solid c List.mem_cons_self, if_neg Bool.false_ne_true]
  obtain ⟨tail, whole, blank⟩ := trimEnd_append_blanks s
  have ended : tail = [] := List.eq_nil_iff_forall_not_mem.2 fun c hc => by
    have := solid c (whole ▸ List.mem_append_right _ hc)
    rw [blank c hc] at this
    cases this
  rw [trim, begun]
  rw [ended, List.append_nil] at whole
  exact whole.symm

end Strongbox.Text
