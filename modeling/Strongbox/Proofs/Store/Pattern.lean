import Mathlib.Data.List.TakeWhile
import Strongbox.Store.Pattern

/-!
# What search patterns accept

The pattern for a text accepts the texts that hold it, whatever characters it has, where the case of
basic letters does not count.
-/

namespace Strongbox.Pattern

/-! ## Parts -/

theorem mem_endings {u s : List Char} : u ∈ endings s ↔ u <:+ s := by
  induction s with
  | nil => simp [endings]
  | cons c rest ih => simp [endings, ih, List.suffix_cons_iff]

/-- Letters before a gap are those that a text begins with. -/
theorem fits_letters_iff (l s : List Char) :
    fits (l.map .letter ++ [.many]) s = true ↔ l.map fold <+: s.map fold := by
  induction l generalizing s with
  | nil => simp [fits]
  | cons c l ih =>
    cases s with
    | nil => simp [fits]
    | cons d s => simp [fits, ih, List.cons_prefix_cons]

theorem fits_many {rest : List Part} (more : rest ≠ []) (s : List Char) :
    fits (.many :: rest) s = (endings s).any (fits rest) := by
  cases rest with
  | nil => exact absurd rfl more
  | cons p rest => rfl

/-- What occurs in a text, however its characters are viewed, begins an ending of the text. -/
theorem infix_map_iff {view : Char → Char} {l s : List Char} :
    l <:+: s.map view ↔ ∃ u, u <:+ s ∧ l <+: u.map view := by
  rw [List.infix_iff_prefix_suffix]
  constructor
  · rintro ⟨v, before, after⟩
    obtain ⟨u, hu, rfl⟩ := List.suffix_map_iff.1 after
    exact ⟨u, hu, before⟩
  · rintro ⟨u, hu, before⟩
    exact ⟨u.map view, before, hu.map view⟩

theorem fits_many_iff (l s : List Char) :
    fits (.many :: l.map .letter ++ [.many]) s = true ↔ l.map fold <:+: s.map fold := by
  rw [List.cons_append, fits_many (by simp), List.any_eq_true, infix_map_iff]
  simp only [mem_endings, fits_letters_iff]

/-! ## Texts -/

theorem visible_of_plain {s : String} (plain : '\x00' ∉ s.toList) : visible s = s.toList := by
  refine List.takeWhile_eq_self_iff.2 fun c hc => ?_
  exact decide_eq_true fun e => plain (e ▸ hc)

theorem plain_containing {s : String} (plain : '\x00' ∉ s.toList) :
    '\x00' ∉ (containing s).toList := by
  have escaped : ∀ c, '\x00' ∈ escape c → c = '\x00' := by
    intro c hc
    unfold escape at hc
    split at hc <;> simp at hc <;> exact hc.symm
  simp only [containing, String.toList_ofList, List.mem_append, List.mem_cons, List.mem_flatMap]
  rintro ((h | ⟨c, hc, h⟩) | h | h)
  · cases h
  · exact plain (escaped c h ▸ hc)
  · cases h
  · cases h

/-- The pattern for a text accepts what holds it, where the case of basic letters does not count. -/
theorem accepts_containing_iff {f s : String} (plain : '\x00' ∉ f.toList) :
    accepts (containing f) s = true ↔ f.toList.map fold <:+: (visible s).map fold := by
  rw [accepts, visible_of_plain (plain_containing plain), parts?_containing]
  exact fits_many_iff f.toList (visible s)

theorem accepts_any (s : String) : accepts "%" s = true := by
  have parts : parts? (visible "%") = some [.many] := by decide
  simp only [accepts, parts, fits]

end Strongbox.Pattern
