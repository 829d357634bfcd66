import Strongbox.Proofs.Plan
import Strongbox.Proofs.Tiling
import Strongbox.Proofs.Word.Checked

/-!
# Where the chunks of a plan lie

Sizes and offsets are words of sixty-four bits, chunk sizes and indices of thirty-two. If the chunks
of a file can be counted at all, they follow one another from its first byte to its last, and no
offset leaves its word. Chunks that are checked one by one, in any order, are the whole file as soon
as there are enough of them and no two have one index.

## Main definitions

* `offsetInWords`, `Plan.spanInWords`, `Plan.spansInWords`, `Plan.isLastInWords`,
  `Plan.checkInWords`: the arithmetic of a plan in words.
* `Plan.InWords`: this arithmetic never leaves its words.
* `Plan.place`: the bytes of the file that a piece is for.
* `Plan.LaidOut`: where the chunks of a plan lie.

## Main statements

* `Plan.inWords`: no offset of a plan leaves its word.
* `Plan.tiles_spans`: the chunks follow one another.
* `Plan.places_of_perm`: pieces of which there is one for each index hold each byte once.
* `Plan.laidOut_of_make`: which sizes have a plan, and where its chunks lie.
-/

namespace Strongbox

/-! ## In words -/

/-- Where a chunk starts, in words. -/
def offsetInWords (index chunkSize : Nat) : Option Nat := Word.mul? Word.count64 index chunkSize

theorem offsetInWords_eq {index chunkSize : Nat} (hi : index < Word.count32)
    (hc : chunkSize < Word.count32) :
    offsetInWords index chunkSize = some (chunkOffset index chunkSize) :=
  Word.mul?_eq (Word.mul_lt hi hc)

namespace Plan

def spanInWords (p : Plan) (index : Nat) : Option (Option Span) :=
  if index < p.total then do
    let start ← offsetInWords index p.chunkSize
    let stop ← Word.add? Word.count64 start p.chunkSize
    return some ⟨start, min stop p.size⟩
  else some none

def spansInWords (p : Plan) (n : Nat) : Option (List (Nat × Span)) := do
  let places ← (List.range (min n p.total)).mapM fun i => do
    let s ← p.spanInWords i
    return s.map (i, ·)
  return places.filterMap id

def isLastInWords (p : Plan) (index : Nat) : Option Bool :=
  if 0 < p.total then do
    let last ← Word.sub? p.total 1
    return index == last
  else some false

def checkInWords (p : Plan) (index length : Nat) : Option (Except Fault Unit) := do
  match ← p.spanInWords index with
  | none => return .error (.outside index p.total)
  | some s =>
    let expected ← Word.sub? s.stop s.start
    return if length = expected then .ok () else .error (.wrongLength index length expected)

/-- The arithmetic of the plan never leaves its words, whatever index and length are asked about. -/
structure InWords (p : Plan) : Prop where
  offset : ∀ index < Word.count32,
    offsetInWords index p.chunkSize = some (chunkOffset index p.chunkSize)
  span : ∀ index, p.spanInWords index = some (p.span? index)
  spans : ∀ n, p.spansInWords n = some (p.spans n)
  isLast : ∀ index, p.isLastInWords index = some (p.isLast index)
  check : ∀ index length, p.checkInWords index length = some (p.check index length)

variable {p : Plan} {i n : Nat}

theorem spanInWords_eq (h : p.chunkSize < Word.count32) (i : Nat) :
    p.spanInWords i = some (p.span? i) := by
  unfold spanInWords span?
  split
  · rename_i hi
    have next : i + 1 < Word.count32 := Nat.lt_of_le_of_lt hi p.total_lt
    have stop : chunkOffset i p.chunkSize + p.chunkSize < Word.count64 :=
      Nat.succ_mul i p.chunkSize ▸ Word.mul_lt next h
    rw [offsetInWords_eq (Nat.lt_of_succ_lt next) h, Option.bind_eq_bind, Option.bind_some,
      Word.add?_eq stop]
    rfl
  · rfl

theorem start_le_of_span? {s : Span} (h : p.span? i = some s) : s.start ≤ s.stop := by
  have hi := (p.span?_isSome_iff i).1 (by rw [h]; rfl)
  have := lt_total_iff.1 hi
  rw [span?_of_lt hi] at h
  cases h
  dsimp only
  omega

/-- The offset past a plan's last chunk is the product of two words, so all offsets fit the word
that holds such products. -/
theorem inWords (h : p.chunkSize < Word.count32) : p.InWords where
  offset _ hi := offsetInWords_eq hi h
  span := spanInWords_eq h
  spans n := by
    have each : (fun i => do
        let s ← p.spanInWords i
        return s.map (i, ·)) = fun i => some ((p.span? i).map (i, ·)) := by
      funext i
      rw [spanInWords_eq h]
      rfl
    have all := List.mapM_pure (m := Option) (l := List.range (min n p.total))
      (f := fun i => (p.span? i).map fun s => (i, s))
    rw [spansInWords, each, spans]
    simp only [Option.pure_def] at all
    rw [all, Option.bind_eq_bind, Option.bind_some, List.filterMap_map]
    rfl
  isLast index := by
    unfold isLastInWords isLast
    split
    · rename_i some
      rw [Word.sub?_eq some]
      simp [some]
    · rename_i none
      simp [none]
  check index length := by
    rw [checkInWords, spanInWords_eq h, check]
    cases hs : p.span? index with
    | none => rfl
    | some s =>
      simp only [Option.bind_eq_bind, Option.bind_some, Word.sub?_eq (start_le_of_span? hs)]
      rfl

/-! ## In a row -/

theorem spans_succ (h : n < p.total) :
    p.spans (n + 1) = p.spans n ++
      [(n, ⟨n * p.chunkSize, min (n * p.chunkSize + p.chunkSize) p.size⟩)] := by
  rw [spans, spans, Nat.min_eq_left h, Nat.min_eq_left (Nat.le_of_lt h), List.range_succ,
    List.filterMap_append, List.filterMap_cons, span?_of_lt h]
  rfl

theorem tiles_spans (p : Plan) (h : n ≤ p.total) :
    Span.Tiles 0 ((p.spans n).map (·.2)) (min (n * p.chunkSize) p.size) := by
  induction n with
  | zero => simpa [spans] using Span.Tiles.nil 0
  | succ n ih =>
    have begun := lt_total_iff.1 h
    have before := ih (Nat.le_of_succ_le h)
    rw [Nat.min_eq_left (Nat.le_of_lt begun)] at before
    rw [spans_succ h, List.map_append, Nat.succ_mul]
    exact before.append
      (.single (s := ⟨n * p.chunkSize, min (n * p.chunkSize + p.chunkSize) p.size⟩) (by grind))

theorem map_fst_spans (p : Plan) (h : n ≤ p.total) : (p.spans n).map (·.1) = List.range n := by
  induction n with
  | zero => rfl
  | succ n ih =>
    rw [spans_succ h, List.map_append, ih (Nat.le_of_succ_le h), List.range_succ]
    rfl

theorem span?_of_mem_spans {e : Nat × Span} (h : e ∈ p.spans n) : p.span? e.1 = some e.2 := by
  obtain ⟨i, -, hi⟩ := List.mem_filterMap.1 h
  obtain ⟨s, hs, rfl⟩ := Option.map_eq_some_iff.1 hi
  exact hs

/-! ## Pieces in their places -/

def place (p : Plan) (t : Piece) : Span :=
  ⟨chunkOffset t.index p.chunkSize, chunkOffset t.index p.chunkSize + t.data.length⟩

theorem span?_of_fits {t : Piece} (h : p.Fits t) : p.span? t.index = some (p.place t) := by
  have := lt_total_iff.1 h.lt_total
  have length_eq := h.length_eq
  rw [spanLength_of_lt h.lt_total] at length_eq
  rw [span?_of_lt h.lt_total, place, chunkOffset, length_eq]
  congr 2
  omega

/-- Pieces of which there is one for each index hold each byte of the file once. -/
theorem places_of_perm {ps : List Piece} (fits : ∀ t ∈ ps, p.Fits t)
    (perm : (ps.map (·.index)).Perm (List.range p.total)) :
    (ps.flatMap fun t => (p.place t).indices).Perm (List.range p.size) := by
  let bytes (i : Nat) : List Nat := ((p.span? i).map Span.indices).getD []
  have here : (ps.flatMap fun t => (p.place t).indices) = (ps.map (·.index)).flatMap bytes := by
    rw [List.flatMap_map]
    refine List.flatMap_congr fun t ht => ?_
    simp only [bytes, span?_of_fits (fits t ht)]
    rfl
  have all : (List.range p.total).flatMap bytes = List.range p.size := by
    have tiles := p.tiles_spans (Nat.le_refl _)
    rw [Nat.min_eq_right p.size_le] at tiles
    rw [← tiles.indices_of_zero, ← p.map_fst_spans (Nat.le_refl _), List.flatMap_map,
      List.flatMap_map]
    refine List.flatMap_congr fun e he => ?_
    simp only [bytes, span?_of_mem_spans he]
    rfl
  rw [here, ← all]
  exact perm.flatMap_right bytes

/-! ## Which sizes have a plan -/

theorem chunkCount_eq_ceilDiv (size chunkSize : Nat) :
    chunkCount size chunkSize = size ⌈/⌉ chunkSize := (Nat.ceilDiv_eq_add_pred_div ..).symm

theorem exists_make_iff {size chunkSize : Nat} (pos : 0 < chunkSize) :
    (∃ p, make size chunkSize = .ok p) ↔ size ⌈/⌉ chunkSize < Word.count32 := by
  rw [← chunkCount_eq_ceilDiv]
  constructor
  · rintro ⟨p, made⟩
    obtain ⟨rfl, rfl⟩ := make_eq_ok_iff.1 made
    exact p.count_lt
  · intro few
    exact ⟨⟨size, chunkSize, pos, few⟩, make_eq_ok_iff.2 ⟨rfl, rfl⟩⟩

/-- The chunks of a plan lie in a row from the first byte to the last, as do any pieces that pass
its check, and none of its arithmetic leaves its words. -/
structure LaidOut (p : Plan) (size chunkSize : Nat) : Prop where
  size_eq : p.size = size
  chunkSize_eq : p.chunkSize = chunkSize
  total_eq : p.total = size ⌈/⌉ chunkSize
  inWords : p.InWords
  /-- No chunk is empty, and only the last may be shorter than the others. -/
  span : ∀ i < p.total, ∃ s, p.span? i = some s ∧ s.start = i * chunkSize ∧ s.start < s.stop ∧
    s.length = if i + 1 = p.total ∧ size % chunkSize ≠ 0 then size % chunkSize else chunkSize
  beyond : ∀ i, p.total ≤ i → p.span? i = none
  isLast_iff : ∀ i, p.isLast i = true ↔ i + 1 = p.total
  /-- All chunks are listed, each with its place, and the places are in a row. -/
  listed : (p.spans p.total).map (·.1) = List.range p.total
  listed_span : ∀ e ∈ p.spans p.total, p.span? e.1 = some e.2
  tiles : Span.Tiles 0 ((p.spans p.total).map (·.2)) size
  /-- A peer is to announce just this number of chunks. -/
  declared_iff : ∀ count q, declared size chunkSize count = .ok q ↔ q = p ∧ count = p.total
  /-- Pieces that pass the check, as many as there are chunks and no two with one index, are
  together as long as the file, and hold each byte of it once. -/
  pieces : ∀ ps : List Piece, ps.length = p.total → (ps.map (·.index)).Nodup →
    (∀ t ∈ ps, p.check t.index t.data.length = .ok ()) →
    sumOver (·.data.length) ps = size ∧
      (ps.flatMap fun t => (p.place t).indices).Perm (List.range size)

/-- The last chunk carries what remains, or is as long as the others if nothing does. -/
theorem length_span {s : Span} (h : p.span? i = some s) :
    s.length = if i + 1 = p.total ∧ p.size % p.chunkSize ≠ 0 then p.size % p.chunkSize
      else p.chunkSize := by
  have hi := (p.span?_isSome_iff i).1 (by rw [h]; rfl)
  have begun := lt_total_iff.1 hi
  have next := lt_total_iff (p := p) (i := i + 1)
  rw [Nat.succ_mul] at next
  rw [span?_of_lt hi] at h
  cases h
  rw [Span.length]
  dsimp only
  by_cases last : i + 1 = p.total
  · have carried : p.size % p.chunkSize = (p.size - i * p.chunkSize) % p.chunkSize := by
      rw [← Nat.add_mul_mod_self_right (p.size - _) i, Nat.sub_add_cancel (Nat.le_of_lt begun)]
    rcases Nat.lt_or_ge (p.size - i * p.chunkSize) p.chunkSize with short | full
    · rw [carried, Nat.mod_eq_of_lt short, if_pos ⟨last, by omega⟩]
      omega
    · have even : p.size - i * p.chunkSize = p.chunkSize := by omega
      rw [carried, even, Nat.mod_self, if_neg fun h => h.2 rfl]
      omega
  · rw [if_neg fun h => last h.1]
    omega

theorem eq_of_sizes {q : Plan} (size_eq : q.size = p.size)
    (chunkSize_eq : q.chunkSize = p.chunkSize) : q = p := by
  cases p
  cases q
  cases size_eq
  cases chunkSize_eq
  rfl

theorem laidOut (h : p.chunkSize < Word.count32) : p.LaidOut p.size p.chunkSize where
  size_eq := rfl
  chunkSize_eq := rfl
  total_eq := chunkCount_eq_ceilDiv ..
  inWords := inWords h
  span i hi := by
    have begun := lt_total_iff.1 hi
    have pos := p.chunkSize_pos
    refine ⟨_, span?_of_lt hi, rfl, ?_, length_span (span?_of_lt hi)⟩
    dsimp only
    omega
  beyond _ hi := if_neg (Nat.not_lt.2 hi)
  isLast_iff _ := isLast_iff
  listed := p.map_fst_spans (Nat.le_refl _)
  listed_span _ := span?_of_mem_spans
  tiles := by
    have tiles := p.tiles_spans (Nat.le_refl _)
    rwa [Nat.min_eq_right p.size_le] at tiles
  declared_iff count q := by
    rw [declared_eq_ok_iff]
    constructor
    · rintro ⟨size_eq, chunkSize_eq, rfl⟩
      obtain rfl := eq_of_sizes size_eq chunkSize_eq
      exact ⟨rfl, rfl⟩
    · rintro ⟨rfl, rfl⟩
      exact ⟨rfl, rfl, rfl⟩
  pieces ps enough nodup passes := by
    have fits : ∀ t ∈ ps, p.Fits t := fun t ht => check_eq_ok_iff.1 (passes t ht)
    have perm : (ps.map (·.index)).Perm (List.range p.total) := by
      refine perm_range nodup (fun i hi => ?_) (by rw [List.length_map, enough])
      obtain ⟨t, ht, rfl⟩ := List.mem_map.1 hi
      exact (fits t ht).lt_total
    exact ⟨sumOver_of_perm fits perm, places_of_perm fits perm⟩

/-- For every size and every chunk size but zero, both of their words: the number of chunks is
counted within the word, there is a plan just if it is less than the word of indices tells apart,
and then the chunks lie in a row. -/
theorem laidOut_of_make (size : UInt64) (chunkSize : UInt32) (pos : 0 < chunkSize) :
    Word.ceilDiv? Word.count64 size.toNat chunkSize.toNat =
      some (chunkCount size.toNat chunkSize.toNat) ∧
    ((∃ p, make size.toNat chunkSize.toNat = .ok p) ↔
      size.toNat ⌈/⌉ chunkSize.toNat < Word.count32) ∧
    ∀ p, make size.toNat chunkSize.toNat = .ok p → p.LaidOut size.toNat chunkSize.toNat := by
  have pos : 0 < chunkSize.toNat := pos
  have size_lt : size.toNat < Word.count64 := size.toNat_lt
  refine ⟨?_, exists_make_iff pos, fun p made => ?_⟩
  · rw [chunkCount_eq_ceilDiv, Word.ceilDiv?_eq pos size_lt]
  · obtain ⟨size_eq, chunkSize_eq⟩ := make_eq_ok_iff.1 made
    have small : p.chunkSize < Word.count32 := chunkSize_eq ▸ chunkSize.toNat_lt
    have laid := laidOut small
    rwa [size_eq, chunkSize_eq] at laid

/-- Ten bytes in chunks of three: four pieces that pass, in some order, hold each byte once. -/
theorem laidOut_of_ten_bytes :
    let p : Plan := ⟨10, 3, by decide, by decide⟩
    let ps : List Piece := [⟨3, [9]⟩, ⟨0, [0, 1, 2]⟩, ⟨2, [6, 7, 8]⟩, ⟨1, [3, 4, 5]⟩]
    (0 : UInt32) < 3 ∧ make 10 3 = .ok p ∧ p.LaidOut 10 3 ∧
      (ps.flatMap fun t => (p.place t).indices).Perm (List.range 10) := by
  intro p ps
  have made : make 10 3 = .ok p := make_eq_ok_iff.2 ⟨rfl, rfl⟩
  have laid : p.LaidOut 10 3 := (laidOut_of_make 10 3 (by decide)).2.2 p made
  exact ⟨by decide, made, laid, (laid.pieces ps (by decide) (by decide) (by decide)).2⟩

end Plan

end Strongbox
