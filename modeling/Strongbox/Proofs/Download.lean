import Strongbox.Download
import Strongbox.Proofs.Partition
import Strongbox.Proofs.Sending.Payload
import Strongbox.Proofs.Upload.Held

/-!
# What a download sends
-/

namespace Strongbox.Download

open Ledger Message

def Worker.pending : Worker → List Nat
  | fetching range => range.indices
  | opening chunks => chunks.map (·.index)
  | sending c others => c.index.toInt.toNat :: others.map (·.index)
  | exited => []

/-- A stored chunk opens to the chunk of a payload that has its index. -/
def Opens (key : Key) (payload : Bytes) (plan : Plan) (c : Chunk) : Prop :=
  c.index < plan.total ∧ c.piece? key = some ⟨c.index, plan.slice payload c.index⟩

/-- What a worker has in its hands is of the payload. -/
def Worker.Holds (key : Key) (payload : Bytes) (plan : Plan) : Worker → Prop
  | fetching range => range.start ≤ range.stop ∧ range.stop ≤ plan.total
  | opening chunks => ∀ c ∈ chunks, Opens key payload plan c
  | sending c others => (∃ i, Sending.cut? payload plan i = some c) ∧
      ∀ c ∈ others, Opens key payload plan c
  | exited => True

/-- A download of a file that holds a payload, while its reader stays: these frames have been sent,
and all others are on their way. -/
structure Serving (key : Key) (payload : Bytes) (plan : Plan) (m : Metadata) (file : Int)
    (d : Distributor) (frames : List Message.Chunk) : Prop where
  file_eq : d.file = file
  total_eq : d.total = plan.total
  stream : d.taken ++ d.queue = .ok (.metadata m) :: Upload.itemsOf frames
  cut : ∀ c ∈ frames, ∃ i, Sending.cut? payload plan i = some c
  accounted : (frames.map (·.index.toInt.toNat) ++ d.workers.flatMap Worker.pending).Perm
    (List.range plan.total)
  holds : ∀ w ∈ d.workers, w.Holds key payload plan
  content : d.failures = []
  running : d.aborted = false
  opened : d.hungUp = false
  quiet : ∀ status, d.tail ≠ .reporting status
  ended : d.tail = .ended → ∀ w ∈ d.workers, w = .exited

variable {σ : Type} [Ledger σ] {key : Key} {owner file : Int} {draft : Draft} {payload : Bytes}
  {plan : Plan} {m : Metadata} {s : σ} {d e : Distributor} {frames : List Message.Chunk} {n : Nat}
  {v w : Worker}

omit [Ledger σ] in
theorem deserted_iff : d.deserted = true ↔ ∀ w ∈ d.workers, w = .exited := by
  simp only [Distributor.deserted, List.all_eq_true]
  refine forall_congr' fun w => imp_congr_right fun _ => ?_
  cases w <;> simp [Worker.isGone]

/-! ## The announcement -/

/-- The metadata of a record announce the plan of the record. -/
theorem announces_metadata {r : Record}
    (declares : Upload.Declares σ r owner ⟨draft, plan⟩) (fits : Sending.Fits plan) :
    Upload.Announces r.metadata plan where
  size_eq := by
    show (plan.size : Int) = (Int64.ofNat r.originalSize).toInt
    rw [declares.originalSize_eq, Word.toInt_ofNat64 fits.size_le]
  chunkSize_eq := by
    show (plan.chunkSize : Int) = (Int32.ofNat r.chunkSize).toInt
    rw [declares.chunkSize_eq, Word.toInt_ofNat32 fits.chunkSize_le]
  total_eq := by
    show (plan.total : Int) = (Int32.ofNat r.totalChunks).toInt
    rw [declares.totalChunks_eq, Word.toInt_ofNat32 fits.total_le]

/-! ## Fetching -/

/-- A range of the chunks of a file that holds a payload. -/
theorem chunks_of_held [Store σ] [LawfulStore σ] {range : Span} (sound : Sound s)
    (held : Upload.Held key owner ⟨draft, plan⟩ file true s (plan.pieces payload))
    (start_le : range.start ≤ range.stop) (stop_le : range.stop ≤ plan.total) :
    ∃ chunks, Store.chunks s file range = .ok chunks ∧ checkRange range chunks = .ok chunks ∧
      (chunks.map (·.index)).Perm range.indices ∧ ∀ c ∈ chunks, Opens key payload plan c := by
  obtain ⟨r, hr, -⟩ := held.record
  obtain ⟨chunks, hchunks, perm, -⟩ := LawfulStore.chunks_known sound hr start_le
  have stored : ((rows s file).map (·.index)).Perm (List.range plan.total) := by
    have := held.indices
    rwa [Plan.map_index_pieces] at this
  have indices : (chunks.map (·.index)).Perm range.indices := by
    have found := perm.map (·.index)
    have same : ((rows s file).filter (·.index ∈ range)).map (·.index) =
        ((rows s file).map (·.index)).filter (· ∈ range) := by
      rw [List.filter_map]
      rfl
    rw [same] at found
    exact (found.trans (stored.filter _)).trans (Span.filter_range stop_le)
  refine ⟨chunks, hchunks, if_pos ?_, indices, fun c hc => ?_⟩
  · have := indices.length_eq
    rwa [List.length_map, Span.length_indices] at this
  · obtain ⟨t, ht, opens⟩ := held.piece_of_mem (List.mem_filter.1 (perm.mem_iff.1 hc)).1
    obtain ⟨lt, data_eq⟩ := Plan.cuts_pieces plan payload t ht
    have index_eq := Chunk.index_piece? opens
    rw [index_eq] at lt data_eq
    refine ⟨lt, opens.trans ?_⟩
    rw [← data_eq, ← index_eq]

omit [Ledger σ] in
theorem pending_fetching (ranges : List Span) :
    ((ranges.filter fun range => !range.isEmpty).map Worker.fetching).flatMap Worker.pending =
      ranges.flatMap Span.indices := by
  induction ranges with
  | nil => rfl
  | cons range ranges ih =>
    rw [List.flatMap_cons, ← ih, List.filter_cons]
    split
    · rfl
    · rename_i none_in
      rw [Span.indices_of_isEmpty (by simpa using none_in), List.nil_append]

omit [Ledger σ] in
/-- A download opens for a user who is told of an available file, if there are any workers. -/
theorem begin_eq_ok_iff [Store σ] {workers : Nat} : begin workers owner file s = .ok d ↔
    ∃ r, (Store.info s file owner = .ok r ∧ r.isAvailable = true) ∧
      ∃ ranges, partition r.totalChunks workers = some ranges ∧ .start r ranges = d := by
  unfold begin
  cases Store.info s file owner with
  | error f => simp
  | ok r =>
    by_cases available : r.isAvailable = true
    · cases hp : partition r.totalChunks workers <;> simp [available, hp, and_assoc]
    · simp [available]

/-- An available file is opened for its owner, if the setting stands for any workers. -/
theorem begin_of_available [Store σ] [LawfulStore σ] {r : Record} (sound : Sound s)
    (hr : record? s file = some r) (available : r.isAvailable = true) (workers : Nat) :
    begin workers r.owner file s =
      match partition r.totalChunks workers with
      | none => .error .aborted
      | some ranges => .ok (.start r ranges) := by
  have visible := (Record.isAvailable_iff.1 available).2
  have shown := LawfulStore.info_live sound (live?_eq_some_iff.2 ⟨hr, visible⟩)
  cases hp : partition r.totalChunks workers <;> simp only [begin, shown, available, hp, if_true]

/-- How a download of a file that holds a payload begins. -/
theorem serving_of_begin [Store σ] [LawfulStore σ] {workers : Nat} {r : Record} (sound : Sound s)
    (held : Upload.Held key owner ⟨draft, plan⟩ file true s (plan.pieces payload))
    (hr : record? s file = some r) (visible : r.isDeleted = false)
    (small : workers < Word.count32) :
    ∃ d, begin workers owner file s = .ok d ∧ d.taken = [] ∧
      Serving key payload plan r.metadata file d [] := by
  obtain ⟨r', hr', declares, complete⟩ := held.record
  cases hr.symm.trans hr'
  obtain ⟨ranges, hranges⟩ := exists_partition r.totalChunks small
  obtain ⟨indices, within⟩ := indices_of_partition hranges
  have total_eq : r.totalChunks = plan.total := declares.totalChunks_eq
  have available : r.isAvailable = true := Record.isAvailable_iff.2 ⟨complete, visible⟩
  have started := begin_of_available sound hr available workers
  rw [declares.owner_eq, hranges] at started
  refine ⟨_, started, rfl, LawfulStore.id_eq sound hr, total_eq, rfl, nofun, ?_, ?_, rfl, rfl, rfl,
    nofun, nofun⟩
  · rw [List.map_nil, List.nil_append, Distributor.start, pending_fetching, indices, total_eq]
  · intro w hw
    obtain ⟨range, hrange, rfl⟩ := List.mem_map.1 hw
    have inside := within range (List.mem_filter.1 hrange).1
    rwa [total_eq] at inside

/-! ## Moves -/

section Moves

variable (serving : Serving key payload plan m file d frames)

include serving

omit [Ledger σ] in
/-- A worker elsewhere, with what it has sent, keeps to what is served. -/
theorem Serving.moved (hw : d.workers[n]? = some v) (present : v ≠ .exited)
    (sent : List Message.Chunk) (cut : ∀ c ∈ sent, ∃ i, Sending.cut? payload plan i = some c)
    (holds : w.Holds key payload plan)
    (accounted : (sent.map (·.index.toInt.toNat) ++ w.pending).Perm v.pending) :
    Serving key payload plan m file
      ({ d with queue := d.queue ++ Upload.itemsOf sent }.setWorker n w) (frames ++ sent) where
  file_eq := serving.file_eq
  total_eq := serving.total_eq
  stream := by
    have := serving.stream
    simp only [Distributor.setWorker, ← List.append_assoc, this]
    simp [Upload.itemsOf]
  cut c hc := (List.mem_append.1 hc).elim (serving.cut c) (cut c)
  accounted := by
    apply perm_iff_sumOver.2
    intro measure
    have before := perm_iff_sumOver.1 serving.accounted measure
    have here := perm_iff_sumOver.1 accounted measure
    have there := sumOver_set (fun w => sumOver measure w.pending) w hw
    simp only [Distributor.setWorker, List.map_append, sumOver_append, sumOver_flatMap] at *
    omega
  holds u hu := (List.mem_or_eq_of_mem_set hu).elim (serving.holds u) fun same => same ▸ holds
  content := serving.content
  running := serving.running
  opened := serving.opened
  quiet := serving.quiet
  ended h := absurd (serving.ended h v (List.mem_of_getElem? hw)) present

omit [Ledger σ] in
theorem Serving.setWorker (hw : d.workers[n]? = some v) (present : v ≠ .exited)
    (holds : w.Holds key payload plan) (accounted : w.pending.Perm v.pending) :
    Serving key payload plan m file (d.setWorker n w) frames := by
  have cut : ∀ c ∈ ([] : List Message.Chunk), ∃ i, Sending.cut? payload plan i = some c := by
    intro c hc
    cases hc
  simpa [Upload.itemsOf] using serving.moved hw present [] cut holds accounted

variable [Store σ] [LawfulStore σ] (sound : Sound s) (total_le : plan.total ≤ Word.maxInt32)
  (held : Upload.Held key owner ⟨draft, plan⟩ file true s (plan.pieces payload))

include sound total_le held

/-- What comes of the move of a worker: it is hindered only if there is no room for its frame. -/
theorem Serving.outcome (hw : d.workers[n]? = some v) (present : v ≠ .exited) :
    (∃ e frames', stepWorker key s d n = some e ∧ Serving key payload plan m file e frames' ∧
      e.taken = d.taken) ∨
    stepWorker key s d n = none ∧ queueDepth ≤ d.queue.length := by
  have holds := serving.holds v (List.mem_of_getElem? hw)
  cases v with
  | fetching range =>
    obtain ⟨chunks, hchunks, checked, indices, opens⟩ := chunks_of_held sound held holds.1 holds.2
    have h : stepWorker key s d n = some (d.setWorker n (.opening chunks)) := by
      simp only [stepWorker, hw, serving.file_eq, hchunks, checked]
    exact .inl ⟨_, frames, h, serving.setWorker hw present opens indices, rfl⟩
  | opening chunks =>
    cases chunks with
    | nil =>
      have h : stepWorker key s d n = some (d.setWorker n .exited) := by
        simp only [stepWorker, hw]
      exact .inl ⟨_, frames, h, serving.setWorker hw present trivial (.refl _), rfl⟩
    | cons c others =>
      obtain ⟨⟨lt, opens⟩, rest⟩ := List.forall_mem_cons.1 holds
      let frame : Message.Chunk :=
        ⟨plan.slice payload c.index, Int32.ofNat c.index, plan.isLast c.index⟩
      have cut : Sending.cut? payload plan c.index = some frame :=
        Sending.cut?_eq_some_iff.2 ⟨lt, rfl⟩
      have opened : openChunk key d.total c = .ok frame := by
        rw [openChunk_of_piece? d.total opens, serving.total_eq]
        rfl
      have index_eq : frame.index.toInt.toNat = c.index :=
        Word.toNat_ofNat32 (Nat.le_trans (Nat.le_of_lt lt) total_le)
      have h : stepWorker key s d n = some (d.setWorker n (.sending frame others)) := by
        simp only [stepWorker, hw, serving.running, opened]
        rfl
      refine .inl ⟨_, frames, h, serving.setWorker hw present ⟨⟨_, cut⟩, rest⟩ ?_, rfl⟩
      simp only [Worker.pending, index_eq, List.map_cons]
      exact .refl _
  | sending c others =>
    by_cases room : d.queue.length < queueDepth
    · have h : stepWorker key s d n =
          some ((d.put (.ok (.chunk c))).setWorker n (.opening others)) := by
        simp only [stepWorker, hw, serving.opened, if_pos room]
        rfl
      refine .inl ⟨_, frames ++ [c], h, serving.moved hw present [c] ?_ holds.2 (.refl _), rfl⟩
      intro c' hc'
      cases List.mem_singleton.1 hc'
      exact holds.1
    · refine .inr ⟨?_, Nat.le_of_not_lt room⟩
      simp only [stepWorker, hw, serving.opened, if_neg room]
      rfl
  | exited => exact absurd rfl present

/-- A worker that moves keeps to what is served, and takes nothing from the reader. -/
theorem Serving.worker (h : stepWorker key s d n = some e) :
    ∃ frames', Serving key payload plan m file e frames' ∧ e.taken = d.taken := by
  cases hw : d.workers[n]? with
  | none => simp [stepWorker, hw] at h
  | some v =>
    have present : v ≠ .exited := by
      rintro rfl
      simp [stepWorker, hw] at h
    rcases serving.outcome sound total_le held hw present with
      ⟨e', frames', h', serving', taken⟩ | ⟨h', -⟩
    · cases h.symm.trans h'
      exact ⟨frames', serving', taken⟩
    · cases h.symm.trans h'

/-- Until the stream is over, a worker or the end of the stream can move, or something waits. -/
theorem Serving.moves (waiting : d.isOver = false) :
    d.queue ≠ [] ∨ (∃ n e, stepWorker key s d n = some e) ∨ ∃ e, stepCloser d = some e := by
  by_cases empty : d.queue ≠ []
  · exact .inl empty
  refine .inr ?_
  rw [Decidable.not_not] at empty
  cases ht : d.tail with
  | ended => simp [Distributor.isOver, empty, ht] at waiting
  | reporting status => exact absurd ht (serving.quiet status)
  | waiting =>
    by_cases gone : d.deserted = true
    · refine .inr ⟨{ d with tail := .ended }, ?_⟩
      simp [stepCloser, ht, gone, serving.content, Failure.collect]
    · rw [deserted_iff] at gone
      simp only [Classical.not_forall] at gone
      obtain ⟨w, hw, present⟩ := gone
      obtain ⟨n, hn⟩ := List.getElem?_of_mem hw
      rcases serving.outcome sound total_le held hn present with ⟨e, -, h, -⟩ | ⟨-, full⟩
      · exact .inl ⟨n, e, h⟩
      · rw [empty] at full
        cases full

end Moves

theorem Serving.closer (serving : Serving key payload plan m file d frames)
    (h : stepCloser d = some e) : Serving key payload plan m file e frames ∧ e.taken = d.taken := by
  unfold stepCloser at h
  split at h
  · split at h
    · rename_i gone
      have none_failed : Failure.collect d.failures = none := by
        rw [serving.content]
        rfl
      rw [none_failed] at h
      cases h
      exact ⟨{ serving with quiet := nofun, ended := fun _ => deserted_iff.1 gone }, rfl⟩
    · cases h
  · exact absurd ‹_› (serving.quiet _)
  · cases h

/-- The moves of the distributor itself. -/
inductive Serves : Move → Prop where
  | worker (n : Nat) : Serves (.worker n)
  | closer : Serves .closer

/-- Every move of the distributor keeps to what is served, and takes nothing from the reader. -/
theorem Serving.step [Store σ] [LawfulStore σ] {mv : Move}
    (serving : Serving key payload plan m file d frames) (sound : Sound s)
    (total_le : plan.total ≤ Word.maxInt32)
    (held : Upload.Held key owner ⟨draft, plan⟩ file true s (plan.pieces payload))
    (serves : Serves mv) (h : Download.step key mv s d = some e) :
    ∃ frames', Serving key payload plan m file e frames' ∧ e.taken = d.taken := by
  cases serves with
  | worker n => exact serving.worker sound total_le held h
  | closer => exact ⟨frames, serving.closer h⟩

theorem Serving.reader (serving : Serving key payload plan m file d frames) {item : Item}
    {rest : List Item} (hq : d.queue = item :: rest) :
    Serving key payload plan m file { d with queue := rest, taken := d.taken ++ [item] }
      frames where
  file_eq := serving.file_eq
  total_eq := serving.total_eq
  stream := by
    rw [← serving.stream, hq]
    simp
  cut := serving.cut
  accounted := serving.accounted
  holds := serving.holds
  content := serving.content
  running := serving.running
  opened := serving.opened
  quiet := serving.quiet
  ended := serving.ended

/-- When the stream is over, all frames have been taken, one for each index. -/
theorem Serving.all_taken (serving : Serving key payload plan m file d frames)
    (final : d.isOver = true) :
    d.taken = .ok (.metadata m) :: Upload.itemsOf frames ∧
      (frames.map (·.index.toInt.toNat)).Perm (List.range plan.total) := by
  simp only [Distributor.isOver, Bool.and_eq_true, List.isEmpty_iff] at final
  have ended : d.tail = .ended := by
    have := final.2
    split at this
    · assumption
    · cases this
  have none_left : d.workers.flatMap Worker.pending = [] :=
    flatMap_eq_nil_of_alike (serving.ended ended) rfl
  refine ⟨?_, ?_⟩
  · rw [← serving.stream, final.1, List.append_nil]
  · have := serving.accounted
    rwa [none_left, List.append_nil] at this

end Strongbox.Download
