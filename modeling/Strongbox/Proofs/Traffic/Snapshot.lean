import Mathlib.Data.List.Perm.Subperm
import Strongbox.Proofs.Download.Delivery
import Strongbox.Proofs.Traffic.Lasting
import Strongbox.Proofs.Upload.Verdict

/-!
# What the reader of a download gets while others call

A download reads the store long after it has been opened, and by then its file may have been
deleted.

## Main definitions

* `Plan.marked`: a chunk frame of an upload as a download sends it.

## Main statements

* `Traffic.Run.uploaded`: a complete file holds what an exact stream has brought.
* `Traffic.Run.course`: what a download does in a row of events is a course of its own.
* `Traffic.snapshot_of_run`: the reader of a download gets all chunks as they were uploaded,
  whatever else is called for.
-/

namespace Strongbox

open Ledger Message

/-- A chunk frame as a download sends it: of the frames of a plan, the last is marked. -/
def Plan.marked (plan : Plan) (c : Message.Chunk) : Message.Chunk :=
  { c with isLast := plan.isLast c.index.toInt.toNat }

/-! ## Rows and the frames that brought them -/

section Frames

variable {σ : Type} [Ledger σ] {key : Key} {file : Int} {plan : Plan} {s : σ}
  {frames : List Message.Chunk} (kept : Upload.Kept key s file plan frames)

include kept

/-- The frame of a stored chunk is one of those that were uploaded. -/
theorem Upload.Kept.frame_eq {c : Chunk} {frame : Message.Chunk} (hc : c ∈ rows s file)
    (brings : Download.Brings key plan.total c frame) : ∃ u ∈ frames, plan.marked u = frame := by
  obtain ⟨u, hu, index_eq, -, opens⟩ := kept.opens c hc
  refine ⟨u, hu, ?_⟩
  have data_eq : frame.data = u.data := Except.ok.inj (brings.opens.symm.trans opens)
  have word_eq : frame.index = u.index := by
    rw [brings.index_eq, ← Int32.ofInt_toInt u.index, index_eq]
    rfl
  have isLast_eq : frame.isLast = plan.isLast u.index.toInt.toNat := by
    rw [Bool.eq_iff_iff, brings.isLast_iff, Plan.isLast_iff, index_eq, Int.toNat_natCast]
  rw [Plan.marked, ← data_eq, ← isLast_eq, ← word_eq]

/-- All chunks of a file that holds what a stream has brought are there, and open. -/
theorem Upload.Kept.intact : Download.Intact key plan.total (rows s file) := by
  intro i hi
  obtain ⟨c, hc, rfl⟩ := List.mem_map.1 (kept.indices.mem_iff.2 (List.mem_range.2 hi))
  obtain ⟨u, -, -, known, opens⟩ := kept.opens c hc
  exact ⟨c, hc, rfl, known, u.data, opens⟩

/-- Frames of stored chunks, no two of one index, are among those that were uploaded. -/
theorem Upload.Kept.subperm {sent : List Chunk} {got : List Message.Chunk}
    (brought : List.Forall₂ (Download.Brings key plan.total) sent got)
    (stored : ∀ c ∈ sent, c ∈ rows s file) (nodup : (got.map (·.index)).Nodup) :
    got.Subperm (frames.map plan.marked) := by
  apply List.Nodup.subperm (List.Nodup.of_map _ nodup)
  clear nodup
  induction brought with
  | nil => exact List.nil_subset _
  | @cons c frame sent got brings rest ih =>
    obtain ⟨here, later⟩ := List.forall_mem_cons.1 stored
    obtain ⟨u, hu, rfl⟩ := kept.frame_eq here brings
    exact List.cons_subset.2 ⟨List.mem_map_of_mem hu, ih later⟩

end Frames

namespace Traffic

variable {σ : Type} [Store σ] [Ledger σ] [LawfulStore σ] {t : Transfer} {w v u : Traffic σ}
  {es es' : List Event} {file : Int} {r : Record} {s₀ : σ}

section Empty

variable (sound : Sound s₀) (empty : files s₀ = []) (run : Run t ⟨s₀, []⟩ es w)
  (hr : record? w.store file = some r) (complete : r.isComplete = true)

include sound empty run hr complete

/-- A complete file holds the pieces of an exact stream, with which one upload of its owner began,
and has the record of what that stream offered. -/
theorem Run.accepted : ∃ k items m plan frames, Made t ⟨s₀, []⟩ es k file ∧
    Begun t ⟨s₀, []⟩ es k r.owner items ∧ Upload.Exact items m plan frames ∧
    Upload.Held t.key r.owner ⟨Upload.draftOf m, plan⟩ file true w.store
      (frames.map Upload.pieceOf) := by
  have orderly := run.orderly_of_empty sound empty
  obtain ⟨k, owner, p, hk, hp⟩ := orderly.kept hr
  obtain ⟨items, begun, inv⟩ := orderly.stands hk
  obtain ⟨-, -, ⟨draft, plan⟩, ps, passed, held⟩ := inv.accepted hp hr complete
  obtain ⟨m, frames, exact, rfl⟩ := passed.exact
  cases passed.offered.symm.trans exact.sends.offered
  obtain ⟨r', hr', declares, -⟩ := held.record
  cases hr.symm.trans hr'
  rw [← declares.owner_eq] at held begun
  exact ⟨k, items, m, plan, frames, (orderly.made hk hp).2, begun, exact, held⟩

/-- A complete file holds what an exact stream has brought, with which one upload of its owner
began. -/
theorem Run.uploaded : ∃ k items m plan frames, Made t ⟨s₀, []⟩ es k file ∧
    Begun t ⟨s₀, []⟩ es k r.owner items ∧ Upload.Exact items m plan frames ∧
    r.totalChunks = plan.total ∧ Upload.Kept t.key w.store file plan frames := by
  obtain ⟨k, items, m, plan, frames, made, begun, exact, held⟩ :=
    run.accepted sound empty hr complete
  obtain ⟨r', hr', declares, -⟩ := held.record
  cases hr.symm.trans hr'
  exact ⟨k, items, m, plan, frames, made, begun, exact, declares.totalChunks_eq, held.kept exact⟩

/-- The chunks of a complete file stay what they are, whatever else happens. -/
theorem Run.steady (run' : Run t w es' v) : Download.Steady file w.store v.store := by
  suffices Download.Steady file w.store v.store ∧
      ∃ r', record? v.store file = some r' ∧ r'.isComplete = true from this.1
  induction run' with
  | nil =>
    have orderly := run.orderly_of_empty sound empty
    exact ⟨⟨orderly.sound, by rw [hr]; rfl, rfl⟩, r, hr, complete⟩
  | @snoc v u es' e run' h ih =>
    obtain ⟨steady, r', hr', complete'⟩ := ih
    have orderly := (run.append run').orderly_of_empty sound empty
    have orderly' := (run.append (run'.snoc h)).orderly_of_empty sound empty
    have spared := orderly.spares_complete hr' complete' h
    have rows_eq := spared.rows_eq.trans steady.rows_eq
    rcases spared.record r' hr' with same | hidden
    · exact ⟨⟨orderly'.sound, by rw [same]; rfl, rows_eq⟩, r', same, complete'⟩
    · exact ⟨⟨orderly'.sound, by rw [hidden]; rfl, rows_eq⟩, r'.deleted, hidden, complete'⟩

/-- What a download of a complete file does in a row of events is a course of its own. -/
theorem Run.course {n : Nat} {d₀ : Download.Distributor} (run₁ : Run t w [.fetch r.owner file] v)
    (hn : v.calls[n]? = some (.downloading d₀)) (run' : Run t v es' u)
    (stays : .download n .hangUp ∉ es') :
    ∃ fs d, u.calls[n]? = some (.downloading d) ∧ Download.Course t.key w.store file d₀ fs d := by
  induction run' with
  | nil => exact ⟨[], d₀, hn, .refl⟩
  | @snoc y z es' e run' h ih =>
    rw [List.mem_append, not_or, List.mem_singleton] at stays
    obtain ⟨fs, d, hd, course⟩ := ih stays.1
    have steady := run.steady sound empty hr complete (run₁.append run')
    obtain ⟨lt, -⟩ := List.getElem?_eq_some_iff.1 hd
    by_cases own : e.call? = some n
    · cases advance_of_step h with
      | offer | fetch | delete => cases own
      | still idle =>
        rw [idle] at own
        cases own
      | upload hk =>
        cases own
        cases hd.symm.trans hk
      | download hk hstep =>
        cases own
        cases hd.symm.trans hk
        refine ⟨_, _, by rw [getElem?_moveTo hk, if_pos rfl], course.next steady ?_ hstep⟩
        rintro rfl
        exact stays.2 rfl
    · exact ⟨fs, d, (calls_beside h own lt).trans hd, course⟩

end Empty

/-- An opened download is a snapshot. Every available file can be opened by its owner, and it was
uploaded by an exact stream. From then on, while the reader stays, the stream brings the metadata
and then frames of that upload, each once at most, with only the last chunk marked; it ends with all
of them and without a failure. This is so whatever else is called for, the file's deletion included.
Until the stream is over the download can move, and each of its moves brings the end nearer. -/
theorem snapshot_of_run (sound : Sound s₀) (empty : files s₀ = []) (run : Run t ⟨s₀, []⟩ es w)
    (hr : record? w.store file = some r) (available : r.isAvailable = true)
    (few : t.workers < Word.count32) :
    ∃ v d₀ k items m plan frames,
      Download.begin t.workers r.owner file w.store = .ok d₀ ∧
      step t (.fetch r.owner file) w = some v ∧
      Made t ⟨s₀, []⟩ es k file ∧ Begun t ⟨s₀, []⟩ es k r.owner items ∧
      Upload.Exact items m plan frames ∧
      ∀ es' u, Run t v es' u → .download w.calls.length .hangUp ∉ es' →
        ∃ d got, u.calls[w.calls.length]? = some (.downloading d) ∧
          d.taken ++ d.queue = .ok (.metadata r.metadata) :: Upload.itemsOf got ∧
          got.Subperm (frames.map plan.marked) ∧
          (d.isOver = true → d.queue = [] ∧ got.Perm (frames.map plan.marked)) ∧
          (d.isOver = false → ∃ m x, m ≠ .hangUp ∧
            step t (.download w.calls.length m) u = some x) ∧
          ∀ m x, step t (.download w.calls.length m) u = some x →
            ∃ e, x.calls[w.calls.length]? = some (.downloading e) ∧ e.weight < d.weight := by
  have complete : r.isComplete = true := by
    simp only [Record.isAvailable, Bool.and_eq_true] at available
    exact available.1
  have sound' := (run.orderly_of_empty sound empty).sound
  obtain ⟨k, items, m, plan, frames, made, begun, exact, total_eq, kept⟩ :=
    run.uploaded sound empty hr complete
  have total_lt : r.totalChunks < Word.count32 := total_eq ▸ plan.total_lt
  obtain ⟨d₀, opened, delivered⟩ :=
    Download.delivered_of_course t.key sound' hr available total_lt few
  have fetched : step t (.fetch r.owner file) w = some (w.join (.downloading d₀)) := by
    simp only [step, opened]
  refine ⟨_, d₀, k, items, m, plan, frames, opened, fetched, made, begun, exact,
    fun es' u run' stays => ?_⟩
  obtain ⟨fs, d, hd, course⟩ := run.course sound empty hr complete (Run.nil.snoc fetched)
    List.getElem?_concat_length run' stays
  obtain ⟨sent, got, ending, stream, brought, stored, nodup, ends, closed, moves, lighter⟩ :=
    delivered fs d course
  rw [total_eq] at brought ends closed
  -- What was kept of an exact stream is intact, and only a damaged file has a failure at its end.
  have none_broken : ∀ {ending},
      Download.Ending t.key plan.total (rows w.store file) fs sent ending →
      ending = [] ∧ (sent.map (·.index)).Perm (List.range plan.total) := by
    intro ending ends
    cases ends with
    | whole _ _ all => exact ⟨rfl, all⟩
    | broken damaged => exact absurd kept.intact damaged
  have content : ending = [] := ends.elim id fun ends => (none_broken ends).1
  rw [content, List.append_nil] at stream
  have among := kept.subperm brought (fun c hc => (stored c hc).1) nodup
  refine ⟨d, got, hd, stream, among, fun final => ?_, fun waiting => ?_, fun mv x hx => ?_⟩
  · obtain ⟨queue_eq, ends⟩ := closed final
    refine ⟨queue_eq, among.perm_of_length_le ?_⟩
    have all := (none_broken ends).2.length_eq
    have sent_eq := brought.length_eq
    have frames_eq := exact.perm.length_eq
    simp only [List.length_map, List.length_range] at all frames_eq ⊢
    omega
  · obtain ⟨mv, e, stays', hstep⟩ := moves waiting u.store
    exact ⟨mv, _, stays', by simp only [step, hd, hstep]; rfl⟩
  · simp only [step, hd] at hx
    obtain ⟨e, hstep, rfl⟩ := Option.map_eq_some_iff.1 hx
    exact ⟨e, by rw [getElem?_moveTo hd, if_pos rfl], lighter u.store mv e hstep⟩

/-- A file of one byte is deleted as soon as it has been opened; the byte is delivered all the
same. -/
theorem snapshot_of_deleted_file :
    let t : Transfer := ⟨1, ⟨List.replicate 32 0, List.length_replicate⟩, Nat.one_pos⟩
    let nonce : Nonce := ⟨List.replicate 24 0, List.length_replicate⟩
    let front : Event := .upload 0 default .front
    let worker : Event := .upload 0 default (.worker 0 (some nonce))
    let accumulator : Event := .upload 0 default .accumulator
    let items : List Item :=
      [.ok (.metadata { originalSize := 1, chunkSize := 1, totalChunks := 1 }),
        .ok (.chunk { data := [7] })]
    let es : List Event := [.offer 5 items, front, front, front, front, worker, worker, worker,
      worker, worker, front, accumulator, worker, worker, accumulator, front, front]
    let es' : List Event := .delete 5 1 :: List.replicate 4 (.download 1 (.worker 0)) ++
      [.download 1 .closer, .download 1 .reader, .download 1 .reader]
    ∃ (w v u : Traffic Resident) (r : Record) (d : Download.Distributor), Run t ⟨{}, []⟩ es w ∧
      record? w.store 1 = some r ∧ step t (.fetch 5 1) w = some v ∧ Run t v es' u ∧
      (record? u.store 1).map (·.isDeleted) = some true ∧ u.calls[1]? = some (.downloading d) ∧
      d.isOver = true ∧
      d.taken = [.ok (.metadata r.metadata), .ok (.chunk { data := [7], isLast := true })] := by
  intro t nonce front worker accumulator items es es'
  have uploaded : ((es.foldlM (fun w e => Traffic.step t e w) (⟨{}, []⟩ : Traffic Resident)).bind
      fun w => (record? w.store 1).map fun r => (w.calls.length, r.owner, r.isAvailable)) =
        some (1, 5, true) := by decide +kernel
  have served : ((((es ++ .fetch 5 1 :: es').foldlM (fun w e => Traffic.step t e w)
      (⟨{}, []⟩ : Traffic Resident)).bind fun u => u.calls[1]?.map fun c =>
        ((record? u.store 1).map (·.isDeleted), match c with
          | .downloading d => d.isOver
          | .uploading .. => false))) = some (some true, true) := by decide +kernel
  obtain ⟨w, hw, uploaded⟩ := Option.bind_eq_some_iff.1 uploaded
  obtain ⟨r, hr, uploaded⟩ := Option.map_eq_some_iff.1 uploaded
  obtain ⟨length_eq, owner_eq, available⟩ :
      w.calls.length = 1 ∧ r.owner = 5 ∧ r.isAvailable = true := by simpa using uploaded
  obtain ⟨u, hu, served⟩ := Option.bind_eq_some_iff.1 served
  obtain ⟨c, hc, served⟩ := Option.map_eq_some_iff.1 served
  rw [Prod.mk.injEq] at served
  have run := Run.of_foldlM hw
  obtain ⟨v, d₀, k, items', m, plan, frames, -, fetched, -, begun, exact, delivers⟩ :=
    snapshot_of_run Resident.sound_empty rfl run hr available (by decide)
  rw [owner_eq] at fetched begun
  have run' : Run t v es' u := by
    rw [List.foldlM_append, hw] at hu
    obtain ⟨v', hv', hu⟩ := Option.bind_eq_some_iff.1
      (show (step t (.fetch 5 1) w).bind (fun v => es'.foldlM (fun w e => step t e w) v) = some u
        from hu)
    cases fetched.symm.trans hv'
    exact Run.of_foldlM hu
  obtain ⟨d, got, hd, stream, -, closed, -⟩ := delivers es' u run' (by simp [length_eq, es'])
  rw [length_eq] at hd
  cases hc.symm.trans hd
  obtain ⟨queue_eq, perm⟩ := closed served.2
  have items_eq : items' = items := by
    obtain ⟨x, ⟨before, after, split, -⟩, -⟩ := begun
    have there : Event.offer 5 items' ∈ es := by simp [split]
    simpa [es, front, worker, accumulator] using there
  have frames_eq : frames = [{ data := [7] }] := by
    have same := exact.stream
    rw [items_eq] at same
    have same_tail : Upload.itemsOf [{ data := [7] }] = Upload.itemsOf frames :=
      (List.cons.inj same).2
    exact (Upload.itemsOf_inj same_tail).symm
  have plan_eq : plan.total = 1 := by
    have same := exact.perm.length_eq
    rw [frames_eq, List.length_map, List.length_range] at same
    exact same.symm
  have marked : plan.marked { data := [7] } = { data := [7], isLast := true } := by
    rw [Plan.marked, Plan.isLast, plan_eq]
    rfl
  rw [frames_eq, List.map_singleton, marked, List.perm_singleton] at perm
  rw [queue_eq, perm, List.append_nil] at stream
  exact ⟨w, v, u, r, d, run, hr, fetched, run', served.1, hd, served.2, stream⟩

end Traffic

end Strongbox
