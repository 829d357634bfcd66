import Strongbox.Piece
import Strongbox.Sum

/-!
# Plans and pieces

How the chunks of a plan tile a file, and what a row of pieces adds up to.
-/

namespace Strongbox

/-- Numbers below `n`, none twice and `n` of them, are all of those numbers. -/
theorem perm_range {l : List Nat} {n : Nat} (nodup : l.Nodup) (lt : ∀ i ∈ l, i < n)
    (length : l.length = n) : l.Perm (List.range n) := by
  apply (List.perm_ext_iff_of_nodup nodup List.nodup_range).2
  intro i
  rw [List.mem_range]
  refine ⟨lt i, fun hi => Decidable.byContradiction fun missing => ?_⟩
  have subset : i :: l ⊆ List.range n := by
    intro j hj
    rcases List.mem_cons.1 hj with rfl | hj
    · exact List.mem_range.2 hi
    · exact List.mem_range.2 (lt j hj)
  have := (List.nodup_cons.2 ⟨missing, nodup⟩).length_le_of_subset subset
  simp only [List.length_cons, List.length_range] at this
  omega

namespace Plan

variable {p : Plan} {i : Nat}

theorem declared_eq_ok_iff {size chunkSize count : Nat} :
    declared size chunkSize count = .ok p ↔
      p.size = size ∧ p.chunkSize = chunkSize ∧ p.total = count := by
  constructor
  · intro h
    cases hm : make size chunkSize with
    | error f =>
      rw [declared, hm] at h
      cases h
    | ok q =>
      rw [declared, hm] at h
      by_cases hq : q.total = count
      · simp only [bind, Except.bind, if_pos hq, pure, Except.pure] at h
        cases h
        have := make_eq_ok_iff.1 hm
        exact ⟨this.1, this.2, hq⟩
      · simp only [bind, Except.bind, if_neg hq] at h
        cases h
  · rintro ⟨hsize, hchunk, htotal⟩
    rw [declared, make_eq_ok_iff.2 ⟨hsize, hchunk⟩]
    simp only [bind, Except.bind, if_pos htotal]
    rfl

theorem lt_total_iff : i < p.total ↔ i * p.chunkSize < p.size := by
  have hpos := p.chunkSize_pos
  show i + 1 ≤ (p.size + p.chunkSize - 1) / p.chunkSize ↔ _
  rw [Nat.le_div_iff_mul_le hpos, Nat.succ_mul]
  omega

theorem size_le (p : Plan) : p.size ≤ p.total * p.chunkSize :=
  Nat.le_of_not_lt (mt lt_total_iff.2 (Nat.lt_irrefl _))

theorem span?_of_lt (h : i < p.total) :
    p.span? i = some ⟨i * p.chunkSize, min (i * p.chunkSize + p.chunkSize) p.size⟩ := by
  rw [span?, if_pos h]
  rfl

theorem isLast_iff : p.isLast i = true ↔ i + 1 = p.total := by
  simp only [isLast, Bool.and_eq_true, decide_eq_true_eq, beq_iff_eq]
  omega

def spanLength (p : Plan) (i : Nat) : Nat := ((p.span? i).map Span.length).getD 0

theorem spanLength_of_lt (h : i < p.total) :
    p.spanLength i = min (i * p.chunkSize + p.chunkSize) p.size - i * p.chunkSize := by
  rw [spanLength, span?_of_lt h]
  rfl

theorem spanLength_le (p : Plan) (i : Nat) : p.spanLength i ≤ p.chunkSize := by
  by_cases h : i < p.total
  · rw [spanLength_of_lt h]
    omega
  · rw [spanLength, span?, if_neg h]
    exact Nat.zero_le _

theorem sumOver_range (p : Plan) {n : Nat} (h : n ≤ p.total) :
    sumOver p.spanLength (List.range n) = min (n * p.chunkSize) p.size := by
  induction n with
  | zero => simp
  | succ n ih =>
    have hlt := lt_total_iff.1 h
    rw [List.range_succ, sumOver_append, ih (Nat.le_of_succ_le h), sumOver_cons, sumOver_nil,
      spanLength_of_lt h, Nat.succ_mul]
    omega

theorem sumOver_spanLength (p : Plan) : sumOver p.spanLength (List.range p.total) = p.size := by
  rw [p.sumOver_range (Nat.le_refl _), Nat.min_eq_right p.size_le]

/-- The piece is one of the plan's chunks. -/
structure Fits (p : Plan) (t : Piece) : Prop where
  lt_total : t.index < p.total
  length_eq : t.data.length = p.spanLength t.index

theorem check_eq_ok_iff {t : Piece} : p.check t.index t.data.length = .ok () ↔ p.Fits t := by
  constructor
  · intro h
    unfold check at h
    split at h
    · cases h
    · rename_i sp hsp
      split at h <;> cases h
      refine ⟨(p.span?_isSome_iff _).1 (by rw [hsp]; rfl), ?_⟩
      rw [spanLength, hsp]
      assumption
  · intro h
    have length_eq := h.length_eq
    rw [spanLength, span?_of_lt h.lt_total] at length_eq
    rw [check, span?_of_lt h.lt_total]
    exact if_pos length_eq

theorem piece_eq_ok_iff {c : Message.Chunk} {t : Piece} :
    p.piece c = .ok t ↔
      0 ≤ c.index.toInt ∧ t = ⟨c.index.toInt.toNat, c.data⟩ ∧ p.Fits t := by
  have hfits := check_eq_ok_iff (p := p) (t := ⟨c.index.toInt.toNat, c.data⟩)
  constructor
  · intro h
    unfold piece at h
    dsimp only at h
    split at h
    · cases h
    · split at h <;> cases h
      exact ⟨by omega, rfl, hfits.1 ‹_›⟩
  · rintro ⟨hpos, rfl, fits⟩
    simp only [piece, if_neg (Int.not_lt.2 hpos), hfits.2 fits]

/-- Pieces of which there is one for each index are together as long as the file. -/
theorem sumOver_of_perm {ps : List Piece} (fits : ∀ t ∈ ps, p.Fits t)
    (perm : (ps.map (·.index)).Perm (List.range p.total)) :
    sumOver (·.data.length) ps = p.size := by
  rw [sumOver_congr fun t ht => (fits t ht).length_eq, ← sumOver_map, sumOver_perm perm,
    p.sumOver_spanLength]

end Plan

end Strongbox
