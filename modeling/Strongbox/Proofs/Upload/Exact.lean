import Strongbox.Proofs.Upload.Blame

/-!
# Exact streams

The streams of frames that make an upload, and what can be said against the others whose chunks all
fit.
-/

namespace Strongbox.Upload

open Message

variable {items : List Item} {m : Metadata} {plan : Plan} {frames : List Message.Chunk} {o : Offer}

def pieceOf (c : Message.Chunk) : Piece := ⟨c.index.toInt.toNat, c.data⟩

/-- The items that bring chunk frames, after which the stream ends cleanly. -/
def itemsOf (frames : List Message.Chunk) : List Item := frames.map fun c => .ok (.chunk c)

/-- The stream is a metadata frame that announces the plan, and then chunk frames that fit it. -/
structure Sends (items : List Item) (m : Metadata) (plan : Plan) (frames : List Message.Chunk) :
    Prop where
  stream : items = .ok (.metadata m) :: itemsOf frames
  announced : Announces m plan
  passes : ∀ c ∈ frames, ∃ t, plan.piece c = .ok t

/-- The stream is a metadata frame that announces the plan, and then one chunk frame for each of its
indices, in any order, as long as the plan says. -/
structure Exact (items : List Item) (m : Metadata) (plan : Plan) (frames : List Message.Chunk) :
    Prop where
  stream : items = .ok (.metadata m) :: itemsOf frames
  announced : Announces m plan
  indices : (frames.map (·.index.toInt)).Perm ((List.range plan.total).map Int.ofNat)
  lengths : ∀ c ∈ frames, ∃ sp, plan.span? c.index.toInt.toNat = some sp ∧ c.data.length = sp.length

theorem piece_eq_pieceOf {c : Message.Chunk} {t : Piece} (h : plan.piece c = .ok t) :
    t = pieceOf c := (Plan.piece_eq_ok_iff.1 h).2.1

/-- Items that bring pieces of a plan bring chunk frames. -/
theorem exists_frames {read : List Item} {ps : List Piece}
    (h : read.map (piece plan) = ps.map .ok) :
    ∃ frames, read = itemsOf frames ∧ ps = frames.map pieceOf ∧
      ∀ c ∈ frames, ∃ t, plan.piece c = .ok t := by
  induction read generalizing ps with
  | nil =>
    cases ps with
    | nil => exact ⟨[], rfl, rfl, nofun⟩
    | cons t ps => cases h
  | cons item read ih =>
    cases ps with
    | nil => cases h
    | cons t ps =>
      rw [List.map_cons, List.map_cons, List.cons.injEq] at h
      obtain ⟨c, rfl, hc⟩ := piece_eq_ok_iff.1 h.1
      obtain ⟨frames, rfl, rfl, passes⟩ := ih h.2
      refine ⟨c :: frames, rfl, by rw [piece_eq_pieceOf hc, List.map_cons], ?_⟩
      exact List.forall_mem_cons.2 ⟨⟨t, hc⟩, passes⟩

theorem read_itemsOf (passes : ∀ c ∈ frames, ∃ t, plan.piece c = .ok t) :
    (itemsOf frames).map (piece plan) = (frames.map pieceOf).map .ok := by
  rw [itemsOf, List.map_map, List.map_map]
  apply List.map_congr_left
  intro c hc
  obtain ⟨t, ht⟩ := passes c hc
  exact ht.trans (congrArg _ (piece_eq_pieceOf ht))

theorem itemsOf_inj {frames' : List Message.Chunk} (h : itemsOf frames = itemsOf frames') :
    frames = frames' := by
  refine (List.map_inj_right fun c d heq => ?_).1 h
  cases heq
  rfl

namespace Sends

variable (sends : Sends items m plan frames)

include sends

theorem offered : offer items.head? = .ok ⟨draftOf m, plan⟩ := by
  rw [sends.stream]
  exact offer_eq_ok_iff.2 ⟨m, rfl, sends.announced, rfl⟩

/-- Whatever was offered is what the metadata frame announces. -/
theorem plan_eq (ho : offer items.head? = .ok o) : o.plan = plan := by
  rw [sends.offered] at ho
  cases ho
  rfl

theorem read : items.tail.map (piece plan) = (frames.map pieceOf).map .ok := by
  rw [sends.stream]
  exact read_itemsOf sends.passes

/-- Whatever was read off the stream came with the first of its frames. -/
theorem sublist_of_read {read rest : List Item} {ps : List Piece}
    (cut : items.tail = read ++ rest) (hread : read.map (piece plan) = ps.map .ok) :
    ps.Sublist (frames.map pieceOf) := by
  obtain ⟨front, rfl, rfl, -⟩ := exists_frames hread
  rw [sends.stream, List.tail_cons] at cut
  obtain ⟨first, others, hframes, hfirst, -⟩ := List.map_eq_append_iff.1 cut
  rw [← itemsOf_inj hfirst, hframes]
  exact (List.sublist_append_left _ _).map _

/-- A stream whose chunks all fit repeats an index or falls short. -/
theorem of_blame {f : Failure} (h : Blame items f) :
    (∃ file i, f = .duplicateChunk file i ∧ 2 ≤ (frames.map (·.index.toInt.toNat)).count i) ∨
      f = miscounted frames.length plan.total ∧ frames.length ≠ plan.total ∧
        (frames.map (·.index.toInt.toNat)).Nodup := by
  have indices : (frames.map pieceOf).map (·.index) = frames.map (·.index.toInt.toNat) := by
    rw [List.map_map]
    rfl
  cases h with
  | refused ho =>
    rw [sends.offered] at ho
    cases ho
  | rejected ho there ht =>
    rw [sends.plan_eq ho] at ht
    have := List.mem_map_of_mem (f := piece plan) there
    rw [sends.read, ht] at this
    obtain ⟨t, -, ht⟩ := List.mem_map.1 this
    cases ht
  | @twice o read rest ps i file ho cut hread twice =>
    rw [sends.plan_eq ho] at hread
    refine .inl ⟨file, i, rfl, Nat.le_trans twice ?_⟩
    rw [← indices]
    exact ((sends.sublist_of_read cut hread).map _).count_le i
  | @short o ps ho hread nodup length_ne =>
    rw [sends.plan_eq ho] at hread length_ne ⊢
    have same : ps = frames.map pieceOf := by
      rw [sends.read] at hread
      exact ((List.map_inj_right fun _ _ => Except.ok.inj).1 hread).symm
    rw [same, List.length_map] at length_ne ⊢
    rw [same, indices] at nodup
    exact .inr ⟨rfl, length_ne, nodup⟩

end Sends

namespace Exact

variable (exact : Exact items m plan frames)

include exact

theorem sends : Sends items m plan frames where
  stream := exact.stream
  announced := exact.announced
  passes c hc := by
    obtain ⟨sp, hsp, length_eq⟩ := exact.lengths c hc
    have index_lt := (plan.span?_isSome_iff _).1 (by rw [hsp]; rfl)
    have positive : 0 ≤ c.index.toInt := by
      have := exact.indices.mem_iff.1 (List.mem_map_of_mem (f := (·.index.toInt)) hc)
      obtain ⟨i, -, hi⟩ := List.mem_map.1 this
      exact hi ▸ Int.natCast_nonneg i
    refine ⟨pieceOf c, Plan.piece_eq_ok_iff.2 ⟨positive, rfl, index_lt, ?_⟩⟩
    rw [Plan.spanLength, pieceOf, hsp]
    exact length_eq

theorem perm : (frames.map (·.index.toInt.toNat)).Perm (List.range plan.total) := by
  have := exact.indices.map Int.toNat
  rw [List.map_map, List.map_map] at this
  simpa [Function.comp_def] using this

theorem passed : Passed items ⟨draftOf m, plan⟩ (frames.map pieceOf) where
  offered := exact.sends.offered
  read := exact.sends.read
  all := by
    rw [List.map_map]
    exact exact.perm

theorem no_blame {f : Failure} : ¬Blame items f := by
  intro h
  have perm := exact.perm
  rcases exact.sends.of_blame h with ⟨-, i, -, twice⟩ | ⟨-, length_ne, -⟩
  · have := List.nodup_iff_count.1 (perm.nodup_iff.2 List.nodup_range) i
    omega
  · have := perm.length_eq
    rw [List.length_map, List.length_range] at this
    exact length_ne this

end Exact

theorem Passed.exact {ps : List Piece} (h : Passed items o ps) :
    ∃ m frames, Exact items m o.plan frames ∧ ps = frames.map pieceOf := by
  obtain ⟨m, head_eq, announced, -⟩ := offer_eq_ok_iff.1 h.offered
  obtain ⟨frames, tail_eq, rfl, passes⟩ := exists_frames h.read
  have fits : ∀ c ∈ frames, 0 ≤ c.index.toInt ∧ o.plan.Fits (pieceOf c) := by
    intro c hc
    obtain ⟨t, ht⟩ := passes c hc
    obtain ⟨positive, rfl, fits⟩ := Plan.piece_eq_ok_iff.1 ht
    exact ⟨positive, fits⟩
  refine ⟨m, frames, ⟨?_, announced, ?_, fun c hc => ?_⟩, rfl⟩
  · cases items with
    | nil => cases head_eq
    | cons item rest =>
      cases head_eq
      rw [← tail_eq, List.tail_cons]
  · have perm := h.all.map Int.ofNat
    rw [List.map_map, List.map_map] at perm
    have same : frames.map (·.index.toInt) = frames.map ((Int.ofNat ∘ Piece.index) ∘ pieceOf) :=
      List.map_congr_left fun c hc => (Int.toNat_of_nonneg (fits c hc).1).symm
    rw [same]
    exact perm
  · have := (fits c hc).2
    have length_eq := this.length_eq
    have hsp := Plan.span?_of_lt this.lt_total
    rw [Plan.spanLength, hsp] at length_eq
    exact ⟨_, hsp, length_eq⟩

end Strongbox.Upload
