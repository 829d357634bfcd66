import Strongbox.Proofs.Download

/-!
# The moves of a download

The moves of the parties of a download one by one, with what a worker finds amiss.
-/

namespace Strongbox.Download

open Ledger Message

/-- The frame brings what a stored chunk holds, and its index as a word. The last chunk of a file is
marked. -/
structure Brings (key : Key) (total : Nat) (c : Chunk) (frame : Message.Chunk) : Prop where
  known : c.algorithm = algorithmName
  opens : key.openWith c.iv c.ciphertext = .ok frame.data
  index_eq : frame.index = Int32.ofNat c.index
  isLast_iff : frame.isLast = true ↔ c.index + 1 = total

theorem openChunk_eq_ok_iff {key : Key} {total : Nat} {c : Chunk} {frame : Message.Chunk} :
    openChunk key total c = .ok frame ↔ Brings key total c frame := by
  have last_iff : (0 < total && c.index == total - 1) = true ↔ c.index + 1 = total := by
    simp only [Bool.and_eq_true, decide_eq_true_eq, beq_iff_eq]
    omega
  unfold openChunk
  constructor
  · intro h
    split at h
    · cases h
    · rename_i known
      split at h
      · rename_i opens
        cases h
        exact ⟨Decidable.not_not.1 known, opens, rfl, last_iff⟩
      · cases h
  · rintro ⟨known, opens, index_eq, isLast_iff⟩
    rw [if_neg (Decidable.not_not.2 known), opens]
    have last_eq := Bool.eq_iff_iff.2 (last_iff.trans isLast_iff.symm)
    simp only [last_eq, ← index_eq]

theorem checkRange_eq_ok_iff {range : Span} {chunks fetched : List Chunk} :
    checkRange range chunks = .ok fetched ↔ chunks.length = range.length ∧ fetched = chunks := by
  unfold checkRange
  split <;> simp_all [eq_comm]

theorem checkRange_eq_error_iff {range : Span} {chunks : List Chunk} {f : Failure} :
    checkRange range chunks = .error f ↔ chunks.length ≠ range.length ∧
      f = .persistence ("chunks " ++ range.toText ++ ": found " ++ toString chunks.length
        ++ " of " ++ toString range.length) := by
  unfold checkRange
  split <;> simp_all [eq_comm]

variable {σ : Type} [Store σ] {key : Key} {s u : σ} {d e : Distributor} {n : Nat}
  {fault : Option Failure}

/-- What a worker finds amiss in its next move: its range cannot be fetched or has gaps, or its next
chunk does not open. -/
def Worker.fault? (key : Key) (s : σ) (d : Distributor) : Worker → Option Failure
  | fetching range =>
    match Store.chunks s d.file range with
    | .error .aborted => some (.persistence "range worker panicked")
    | .error (.failed f) => some f
    | .ok chunks =>
      match checkRange range chunks with
      | .error f => some f
      | .ok _ => none
  | opening (c :: _) =>
    if d.aborted then none
    else
      match openChunk key d.total c with
      | .error f => some f
      | .ok _ => none
  | _ => none

def Move.fault? (key : Key) (s : σ) (d : Distributor) : Move → Option Failure
  | worker n => d.workers[n]?.bind (Worker.fault? key s d)
  | _ => none

inductive WorkerMove (key : Key) (s : σ) (d : Distributor) (n : Nat) :
    Option Failure → Distributor → Prop where
  | crash {range : Span} (hw : d.workers[n]? = some (.fetching range))
      (hs : Store.chunks s d.file range = .error .aborted) :
      WorkerMove key s d n (some (.persistence "range worker panicked"))
        (d.leave n (.persistence "range worker panicked"))
  | miss {range : Span} {f : Failure} (hw : d.workers[n]? = some (.fetching range))
      (hs : Store.chunks s d.file range = .error (.failed f)) :
      WorkerMove key s d n (some f) (d.fail n f)
  | lack {range : Span} {chunks : List Chunk} {f : Failure}
      (hw : d.workers[n]? = some (.fetching range))
      (hs : Store.chunks s d.file range = .ok chunks) (hc : checkRange range chunks = .error f) :
      WorkerMove key s d n (some f) (d.fail n f)
  | fetch {range : Span} {chunks : List Chunk} (hw : d.workers[n]? = some (.fetching range))
      (hs : Store.chunks s d.file range = .ok chunks) (hc : checkRange range chunks = .ok chunks) :
      WorkerMove key s d n none (d.setWorker n (.opening chunks))
  | finish (hw : d.workers[n]? = some (.opening [])) :
      WorkerMove key s d n none (d.setWorker n .exited)
  | stop {c : Chunk} {others : List Chunk} (hw : d.workers[n]? = some (.opening (c :: others)))
      (ha : d.aborted = true) : WorkerMove key s d n none (d.setWorker n .exited)
  | spoil {c : Chunk} {others : List Chunk} {f : Failure}
      (hw : d.workers[n]? = some (.opening (c :: others))) (ha : d.aborted = false)
      (hc : openChunk key d.total c = .error f) : WorkerMove key s d n (some f) (d.fail n f)
  | reveal {c : Chunk} {others : List Chunk} {frame : Message.Chunk}
      (hw : d.workers[n]? = some (.opening (c :: others))) (ha : d.aborted = false)
      (hc : openChunk key d.total c = .ok frame) :
      WorkerMove key s d n none (d.setWorker n (.sending frame others))
  | quit {frame : Message.Chunk} {others : List Chunk}
      (hw : d.workers[n]? = some (.sending frame others)) (hh : d.hungUp = true) :
      WorkerMove key s d n none ({ d with aborted := true }.setWorker n .exited)
  | send {frame : Message.Chunk} {others : List Chunk}
      (hw : d.workers[n]? = some (.sending frame others)) (hh : d.hungUp = false)
      (room : d.queue.length < queueDepth) :
      WorkerMove key s d n none ((d.put (.ok (.chunk frame))).setWorker n (.opening others))

inductive CloserMove (d : Distributor) : Distributor → Prop where
  | doom {f : Failure} (ht : d.tail = .waiting) (gone : d.deserted = true)
      (hf : Failure.collect d.failures = some f) :
      CloserMove d { d with tail := .reporting f.status }
  | close (ht : d.tail = .waiting) (gone : d.deserted = true) (hf : d.failures = []) :
      CloserMove d { d with tail := .ended }
  | quit {status : Status} (ht : d.tail = .reporting status) (hh : d.hungUp = true) :
      CloserMove d { d with tail := .ended }
  | report {status : Status} (ht : d.tail = .reporting status) (hh : d.hungUp = false)
      (room : d.queue.length < queueDepth) :
      CloserMove d { d.put (.error status) with tail := .ended }

/-- A worker that moves makes one of its moves, with what it finds amiss. -/
theorem workerMove_of_step (h : stepWorker key s d n = some e) :
    WorkerMove key s d n (Move.fault? key s d (.worker n)) e := by
  unfold stepWorker at h
  split at h <;> rename_i hw
  · cases h
  · cases h
  · split at h <;> rename_i hs
    · cases h
      simp only [Move.fault?, hw, Option.bind_some, Worker.fault?, hs]
      exact .crash hw hs
    · cases h
      simp only [Move.fault?, hw, Option.bind_some, Worker.fault?, hs]
      exact .miss hw hs
    · split at h <;> rename_i hc <;> cases h
      · simp only [Move.fault?, hw, Option.bind_some, Worker.fault?, hs, hc]
        exact .lack hw hs hc
      · obtain ⟨-, rfl⟩ := checkRange_eq_ok_iff.1 hc
        simp only [Move.fault?, hw, Option.bind_some, Worker.fault?, hs, hc]
        exact .fetch hw hs hc
  · cases h
    simp only [Move.fault?, hw, Option.bind_some, Worker.fault?]
    exact .finish hw
  · split at h <;> rename_i ha
    · cases h
      simp only [Move.fault?, hw, Option.bind_some, Worker.fault?, if_pos ha]
      exact .stop hw ha
    · have ha' : d.aborted = false := Bool.not_eq_true _ ▸ ha
      split at h <;> rename_i hc <;> cases h
      · simp only [Move.fault?, hw, Option.bind_some, Worker.fault?, if_neg ha, hc]
        exact .spoil hw ha' hc
      · simp only [Move.fault?, hw, Option.bind_some, Worker.fault?, if_neg ha, hc]
        exact .reveal hw ha' hc
  · simp only [Move.fault?, hw, Option.bind_some, Worker.fault?]
    split at h <;> rename_i hh
    · cases h
      exact .quit hw hh
    · split at h <;> cases h
      exact .send hw (Bool.not_eq_true _ ▸ hh) ‹_›

theorem closerMove_of_step (h : stepCloser d = some e) : CloserMove d e := by
  unfold stepCloser at h
  split at h <;> rename_i ht
  · split at h
    · rename_i gone
      split at h <;> rename_i hf <;> cases h
      · exact .doom ht gone hf
      · exact .close ht gone ((Failure.collect_eq_none_iff _).1 hf)
    · cases h
  · split at h <;> rename_i hh
    · cases h
      exact .quit ht hh
    · split at h <;> cases h
      exact .report ht (Bool.not_eq_true _ ▸ hh) ‹_›
  · cases h

theorem Serves.hungUp_eq {m : Move} (serves : Serves m) (h : step key m s d = some e) :
    e.hungUp = d.hungUp := by
  cases serves with
  | worker n =>
    have move := workerMove_of_step (d := d) h
    generalize Move.fault? key s d (.worker n) = fault at move
    cases move <;> rfl
  | closer =>
    have move : stepCloser d = some e := h
    cases closerMove_of_step move <;> rfl

omit [Store σ] in
theorem isOver_iff : d.isOver = true ↔ d.queue = [] ∧ d.tail = .ended := by
  rw [Distributor.isOver, Bool.and_eq_true, List.isEmpty_iff]
  cases d.tail <;> simp

/-- A worker that is there is hindered only if there is no room for its frame. -/
theorem exists_stepWorker {w : Worker} (hw : d.workers[n]? = some w) (present : w ≠ .exited)
    (room : d.queue.length < queueDepth) : ∃ e, stepWorker key s d n = some e := by
  rw [← Option.isSome_iff_exists]
  unfold stepWorker
  rw [hw]
  cases w with
  | fetching range =>
    dsimp only
    split
    · rfl
    · rfl
    · split <;> rfl
  | opening chunks =>
    cases chunks with
    | nil => rfl
    | cons c others =>
      dsimp only
      split
      · rfl
      · split <;> rfl
  | sending frame others =>
    dsimp only
    rw [if_pos room]
    split <;> rfl
  | exited => exact absurd rfl present

/-- Until the stream is over, the reader has something to take or another can move. -/
theorem exists_move (waiting : d.isOver = false) (stays : d.hungUp = false) :
    ∃ m e, m ≠ .hangUp ∧ step key m s d = some e := by
  cases hq : d.queue with
  | cons item rest => exact ⟨.reader, _, by simp, by simp only [step, stays, hq]; rfl⟩
  | nil =>
    have room : d.queue.length < queueDepth := by
      rw [hq]
      decide
    cases ht : d.tail with
    | ended => simp [Distributor.isOver, hq, ht] at waiting
    | reporting status =>
      exact ⟨.closer, _, by simp, by simp only [step, stepCloser, ht, stays, room]; rfl⟩
    | waiting =>
      by_cases gone : d.deserted = true
      · cases hf : Failure.collect d.failures with
        | none => exact ⟨.closer, _, by simp, by simp only [step, stepCloser, ht, gone, hf]; rfl⟩
        | some f => exact ⟨.closer, _, by simp, by simp only [step, stepCloser, ht, gone, hf]; rfl⟩
      · rw [deserted_iff] at gone
        simp only [Classical.not_forall] at gone
        obtain ⟨w, hw, present⟩ := gone
        obtain ⟨n, hn⟩ := List.getElem?_of_mem hw
        obtain ⟨e, he⟩ : ∃ e, stepWorker key s d n = some e := exists_stepWorker hn present room
        exact ⟨.worker n, e, by simp, he⟩

theorem WorkerMove.lt_length {fault : Option Failure} (move : WorkerMove key s d n fault e) :
    n < d.workers.length := by
  cases move with
  | crash hw | miss hw | lack hw | fetch hw | finish hw | stop hw | spoil hw | reveal hw | quit hw
  | send hw => exact (List.getElem?_eq_some_iff.1 hw).1

/-- While the reader is there, only its own leaving takes it away. -/
theorem hungUp_of_step {m : Move} (serves : m ≠ .hangUp) (stays : d.hungUp = false)
    (h : step key m s d = some e) : e.hungUp = false := by
  cases m with
  | worker n => exact ((Serves.worker n).hungUp_eq h).trans stays
  | closer => exact (Serves.closer.hungUp_eq h).trans stays
  | reader =>
    simp only [step] at h
    split at h <;> cases h
    exact stays
  | hangUp => exact absurd rfl serves

theorem over_of_run (stays : d.hungUp = false) :
    ((machine key s).run workersFirst d).isOver = true := by
  have still : ((machine key s).run workersFirst d).hungUp = false := by
    refine Machine.run_induction (P := fun d : Distributor => d.hungUp = false) stays ?_
    intro m d e asked stays h
    have serves : m ≠ .hangUp := by
      rintro rfl
      simp [workersFirst] at asked
    have move : step key m s d = some e := h
    exact hungUp_of_step serves stays move
  have idle {m : Move} (asked : m ∈ workersFirst ((machine key s).run workersFirst d).weight
      ((machine key s).run workersFirst d).workers.length) :
      step key m s ((machine key s).run workersFirst d) = none :=
    Machine.step_run (M := machine key s) asked
  generalize (machine key s).run workersFirst d = e at *
  rw [← Bool.not_eq_false]
  intro waiting
  obtain ⟨m, e', serves, h⟩ : ∃ m e', m ≠ .hangUp ∧ step key m s e = some e' :=
    exists_move waiting still
  cases m with
  | hangUp => exact serves rfl
  | closer | reader => cases h.symm.trans (idle (by simp [workersFirst]))
  | worker n =>
    have move : stepWorker key s e n = some e' := h
    have there := (workerMove_of_step move).lt_length
    cases h.symm.trans (idle (by simpa [workersFirst] using there))

variable [Ledger σ] {file : Int}

/-- The store is sound, and has the chunks of a file that it had. -/
structure Steady (file : Int) (s u : σ) : Prop where
  sound : Sound u
  known : (record? u file).isSome
  rows_eq : rows u file = rows s file

/-- What moves lead to while the reader stays and the chunks of the file do not change, and what the
workers have found amiss, in order. The store may change between moves in all else. -/
inductive Course (key : Key) (s : σ) (file : Int) (d₀ : Distributor) :
    List Failure → Distributor → Prop where
  | refl : Course key s file d₀ [] d₀
  | next {fs : List Failure} {d e : Distributor} {u : σ} {m : Move}
      (course : Course key s file d₀ fs d) (steady : Steady file s u) (stays : m ≠ .hangUp)
      (h : step key m u d = some e) :
      Course key s file d₀ (fs ++ (m.fault? key u d).toList) e

end Strongbox.Download
