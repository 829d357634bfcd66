import Strongbox.Proofs.Keyed
import Strongbox.Proofs.Plan
import Strongbox.Tree

/-!
# A payload and its pieces

How a plan cuts a payload, and how the pieces make up the payload again, wherever they are put
first.
-/

namespace Strongbox

/-- What stands where after bytes have been put over others. -/
theorem Bytes.getElem?_overwrite (b : Bytes) (offset : Nat) (data : Bytes) (j : Nat) :
    (b.overwrite offset data)[j]? =
      if j < offset then if j < b.length then b[j]? else some 0
      else if j < offset + data.length then data[j - offset]?
      else b[j]? := by
  have front : (b.take offset ++ List.replicate (offset - b.length) 0).length = offset := by
    simp only [List.length_append, List.length_take, List.length_replicate]
    omega
  rw [overwrite, List.append_assoc, List.getElem?_append, front]
  split
  · rw [List.getElem?_append, List.length_take]
    split
    · rw [List.getElem?_take_of_lt ‹_›, if_pos (by omega)]
    · rw [if_neg (by omega), List.getElem?_replicate, if_pos (by omega)]
  · rw [List.getElem?_append]
    split
    · rw [if_pos (by omega)]
    · rw [if_neg (by omega), List.getElem?_drop]
      congr 1
      omega

theorem Bytes.length_overwrite (b : Bytes) (offset : Nat) (data : Bytes) :
    (b.overwrite offset data).length = max b.length (offset + data.length) := by
  simp only [overwrite, List.length_append, List.length_take, List.length_replicate,
    List.length_drop]
  omega

namespace Plan

variable {p : Plan} {payload : Bytes} {i : Nat}

def slice (p : Plan) (payload : Bytes) (i : Nat) : Bytes :=
  (payload.drop (chunkOffset i p.chunkSize)).take (p.spanLength i)

def pieces (p : Plan) (payload : Bytes) : List Piece :=
  (List.range p.total).map fun i => ⟨i, p.slice payload i⟩

@[simp] theorem map_index_pieces (p : Plan) (payload : Bytes) :
    (p.pieces payload).map (·.index) = List.range p.total := by
  rw [pieces, List.map_map]
  exact List.map_id _

theorem length_slice (size_eq : p.size = payload.length) (hi : i < p.total) :
    (p.slice payload i).length = p.spanLength i := by
  have := lt_total_iff.1 hi
  rw [slice, List.length_take, List.length_drop, spanLength_of_lt hi, chunkOffset, ← size_eq]
  omega

/-- The first chunks of a payload, one after another, are what it begins with. -/
theorem flatMap_slice_range (size_eq : p.size = payload.length) {n : Nat} (h : n ≤ p.total) :
    (List.range n).flatMap (p.slice payload) = payload.take (n * p.chunkSize) := by
  induction n with
  | zero => simp
  | succ n ih =>
    have whole : p.slice payload n = (payload.drop (n * p.chunkSize)).take p.chunkSize := by
      rw [slice, spanLength_of_lt h, chunkOffset, List.take_eq_take_iff, List.length_drop]
      omega
    rw [List.range_succ, List.flatMap_append, ih (Nat.le_of_succ_le h), List.flatMap_singleton,
      whole, Nat.succ_mul, List.take_add]

/-- The chunks of a payload, one after another, are the payload. -/
theorem flatMap_slice (size_eq : p.size = payload.length) :
    (List.range p.total).flatMap (p.slice payload) = payload := by
  rw [flatMap_slice_range size_eq (Nat.le_refl _)]
  exact List.take_of_length_le (size_eq ▸ p.size_le)

def Cuts (p : Plan) (payload : Bytes) (ps : List Piece) : Prop :=
  ∀ t ∈ ps, t.index < p.total ∧ t.data = p.slice payload t.index

/-- Chunks of a payload, one for each index, are all its chunks in some order. -/
theorem Cuts.perm {ps : List Piece} (cuts : p.Cuts payload ps)
    (perm : (ps.map (·.index)).Perm (List.range p.total)) : ps.Perm (p.pieces payload) := by
  have same : ps = (ps.map (·.index)).map fun i => ⟨i, p.slice payload i⟩ := by
    rw [List.map_map]
    refine (List.map_id ps).symm.trans (List.map_congr_left ?_)
    intro t ht
    cases t
    simp only [id, Function.comp, Piece.mk.injEq, true_and]
    exact (cuts _ ht).2
  rw [same]
  exact perm.map _

theorem Cuts.fits {ps : List Piece} (cuts : p.Cuts payload ps) (size_eq : p.size = payload.length) :
    ∀ t ∈ ps, p.Fits t := by
  intro t ht
  obtain ⟨lt, data_eq⟩ := cuts t ht
  exact ⟨lt, data_eq ▸ length_slice size_eq lt⟩

theorem cuts_pieces (p : Plan) (payload : Bytes) : p.Cuts payload (p.pieces payload) := by
  intro t ht
  obtain ⟨i, hi, rfl⟩ := List.mem_map.1 ht
  exact ⟨List.mem_range.1 hi, rfl⟩

/-! ## Putting pieces in their places -/

/-- What pieces leave behind that are put in their places one after another. -/
def fill (p : Plan) (ps : List Piece) : Bytes :=
  ps.foldl (fun b t => b.overwrite (chunkOffset t.index p.chunkSize) t.data) []

/-- The bytes that chunks with these indices put in place are those of the payload. -/
structure Placed (p : Plan) (payload b : Bytes) (indices : List Nat) : Prop where
  length_le : b.length ≤ p.size
  agrees : ∀ j < p.size, j / p.chunkSize ∈ indices → b[j]? = payload[j]?

theorem Placed.nil (p : Plan) (payload : Bytes) : p.Placed payload [] [] :=
  ⟨Nat.zero_le _, nofun⟩

/-- A chunk of the payload is put in its place, and touches no other. -/
theorem Placed.overwrite {b : Bytes} {indices : List Nat} (placed : p.Placed payload b indices)
    (size_eq : p.size = payload.length) (hi : i < p.total) :
    p.Placed payload (b.overwrite (chunkOffset i p.chunkSize) (p.slice payload i))
      (i :: indices) where
  length_le := by
    have := placed.length_le
    have := lt_total_iff.1 hi
    rw [Bytes.length_overwrite, length_slice size_eq hi, spanLength_of_lt hi, chunkOffset]
    omega
  agrees j hj hmem := by
    have hpos := p.chunkSize_pos
    have start := lt_total_iff.1 hi
    rw [Bytes.getElem?_overwrite, length_slice size_eq hi, spanLength_of_lt hi, chunkOffset]
    by_cases here : j / p.chunkSize = i
    · have low : i * p.chunkSize ≤ j := (Nat.le_div_iff_mul_le hpos).1 (Nat.le_of_eq here.symm)
      have high : j < i * p.chunkSize + p.chunkSize := by
        rw [← Nat.succ_mul]
        exact (Nat.div_lt_iff_lt_mul hpos).1 (by omega)
      rw [if_neg (by omega), if_pos (by omega), slice, chunkOffset,
        List.getElem?_take_of_lt (by rw [spanLength_of_lt hi]; omega), List.getElem?_drop]
      congr 1
      omega
    · have old := placed.agrees j hj ((List.mem_cons.1 hmem).resolve_left here)
      have outside : j < i * p.chunkSize ∨ i * p.chunkSize + p.chunkSize ≤ j := by
        rcases Nat.lt_or_gt_of_ne here with lt | gt
        · exact .inl ((Nat.div_lt_iff_lt_mul hpos).1 lt)
        · rw [← Nat.succ_mul]
          exact .inr ((Nat.le_div_iff_mul_le hpos).1 gt)
      split
      · have inside : j < payload.length := size_eq ▸ hj
        have there : j < b.length :=
          (List.getElem?_eq_some_iff.1 (old.trans (List.getElem?_eq_getElem inside))).1
        rw [if_pos there, old]
      · rw [if_neg (by omega), old]

theorem Placed.foldl {ps : List Piece} {b : Bytes} {indices : List Nat}
    (placed : p.Placed payload b indices) (size_eq : p.size = payload.length)
    (cuts : p.Cuts payload ps) :
    p.Placed payload
      (ps.foldl (fun b t => b.overwrite (chunkOffset t.index p.chunkSize) t.data) b)
      ((ps.map (·.index)).reverse ++ indices) := by
  induction ps generalizing b indices with
  | nil => exact placed
  | cons t ps ih =>
    obtain ⟨ht, hdata⟩ := cuts t List.mem_cons_self
    have next := placed.overwrite size_eq ht
    rw [← hdata] at next
    have := ih next fun u hu => cuts u (List.mem_cons_of_mem _ hu)
    rwa [List.map_cons, List.reverse_cons, List.append_assoc]

/-- Pieces of which there is one for each index make up the payload, in any order. -/
theorem fill_eq {ps : List Piece} (size_eq : p.size = payload.length) (cuts : p.Cuts payload ps)
    (perm : (ps.map (·.index)).Perm (List.range p.total)) : p.fill ps = payload := by
  have placed := (Placed.nil p payload).foldl size_eq cuts
  have hpos := p.chunkSize_pos
  apply List.ext_getElem?
  intro j
  by_cases hj : j < p.size
  · refine placed.agrees j hj ?_
    rw [List.append_nil, List.mem_reverse, perm.mem_iff, List.mem_range, lt_total_iff]
    exact Nat.lt_of_le_of_lt (Nat.div_mul_le_self _ _) hj
  · have := placed.length_le
    rw [List.getElem?_eq_none (by rw [fill]; omega), List.getElem?_eq_none (by omega)]

/-! ## The payload of pieces -/

/-- The payload that pieces are cut from: each byte is taken from the piece that it belongs to. -/
def assemble (p : Plan) (ps : List Piece) : Bytes :=
  (List.range p.size).map fun j =>
    ((ps.find? fun t => t.index = j / p.chunkSize).bind fun t => t.data[j % p.chunkSize]?).getD 0

theorem length_assemble (p : Plan) (ps : List Piece) : (p.assemble ps).length = p.size := by
  rw [assemble, List.length_map, List.length_range]

theorem getElem?_assemble {ps : List Piece} {t : Piece} (nodup : (ps.map (·.index)).Nodup)
    (ht : t ∈ ps) (fits : p.Fits t) {k : Nat} (hk : k < t.data.length) :
    (p.assemble ps)[chunkOffset t.index p.chunkSize + k]? = t.data[k]? := by
  have length_eq := fits.length_eq
  rw [spanLength_of_lt fits.lt_total] at length_eq
  have small : k < p.chunkSize := by omega
  have quotient : (t.index * p.chunkSize + k) / p.chunkSize = t.index := by
    rw [Nat.add_comm, Nat.add_mul_div_right _ _ p.chunkSize_pos, Nat.div_eq_of_lt small,
      Nat.zero_add]
  have remainder : (t.index * p.chunkSize + k) % p.chunkSize = k := by
    rw [Nat.add_comm, Nat.add_mul_mod_self_right, Nat.mod_eq_of_lt small]
  rw [assemble, chunkOffset, List.getElem?_map, List.getElem?_range (by omega), Option.map_some,
    quotient, remainder, Keyed.find?_of_mem Piece.index nodup ht, Option.bind_some,
    List.getElem?_eq_getElem hk, Option.getD_some]

/-- Pieces that fit the plan are cut from a payload, if no two have one index. -/
theorem cuts_assemble {ps : List Piece} (fits : ∀ t ∈ ps, p.Fits t)
    (nodup : (ps.map (·.index)).Nodup) : p.Cuts (p.assemble ps) ps := by
  intro t ht
  have lt_total := (fits t ht).lt_total
  have length_eq := (fits t ht).length_eq
  refine ⟨lt_total, List.ext_getElem? fun k => ?_⟩
  by_cases hk : k < t.data.length
  · rw [slice, List.getElem?_take_of_lt (length_eq ▸ hk), List.getElem?_drop,
      getElem?_assemble nodup ht (fits t ht) hk]
  · have length_slice := length_slice (length_assemble p ps).symm lt_total
    rw [List.getElem?_eq_none (by omega), List.getElem?_eq_none (by omega)]

end Plan

end Strongbox
