import Strongbox.Fetch
import Strongbox.Proofs.Crew

/-!
# The moves of a receiver

The moves of the front and of the writers one by one, with the work on files that fails.
-/

namespace Strongbox.Receiving

open Message

variable {r₀ r q : Receiver} {n : Nat} {fs : List Failure}

/-- The work on a file that fails in a move: putting a chunk in its place, making sure that all is
written, or giving the file its name. A write that seems to work and whose failure shows only later
is one that fails there. -/
def Move.fault? (r : Receiver) : Move → Option Failure
  | front fault =>
    match r.front with
    | .syncing => fault
    | .naming =>
      fault.or <| match r.tree.rename r.folder r.temporary r.name with
        | .ok _ => none
        | .error f => some f
    | _ => none
  | writer n fault =>
    match r.workers[n]? with
    | some (.busy (.writing _)) => fault.map (·.2)
    | _ => none

inductive FrontMove (r : Receiver) : Option Failure → Receiver → Prop where
  | finish (hf : r.front = .reading) (hi : r.inbound = []) : FrontMove r none (r.close none)
  | stop {item : Item} {rest : List Item} (hf : r.front = .reading) (hi : r.inbound = item :: rest)
      (ha : r.aborted = true) : FrontMove r none ({ r with inbound := rest }.close none)
  | refuse {item : Item} {rest : List Item} {f : Failure} (hf : r.front = .reading)
      (hi : r.inbound = item :: rest) (ha : r.aborted = false)
      (hp : piece r.plan r.seen item = .error f) :
      FrontMove r none ({ r with inbound := rest }.close (some f))
  | take {item : Item} {rest : List Item} {p : Piece} (hf : r.front = .reading)
      (hi : r.inbound = item :: rest) (ha : r.aborted = false)
      (hp : piece r.plan r.seen item = .ok p) :
      FrontMove r none { r with front := .enqueuing p, inbound := rest, seen := p.index :: r.seen }
  | enqueue {p : Piece} (hf : r.front = .enqueuing p) (room : r.queue.length < queueDepth) :
      FrontMove r none { r with front := .reading, queue := r.queue ++ [p] }
  | fail {failure : Option Failure} {f : Failure} (hf : r.front = .draining failure)
      (gone : r.deserted = true) (hv : failure.or r.failure = some f) :
      FrontMove r none { r with front := .clearing f }
  | lack {failure : Option Failure} {f : Failure} (hf : r.front = .draining failure)
      (gone : r.deserted = true) (hv : failure.or r.failure = none)
      (count : r.seen.length ≠ r.plan.total) : FrontMove r none { r with front := .clearing f }
  | complete {failure : Option Failure} (hf : r.front = .draining failure)
      (gone : r.deserted = true) (hv : failure.or r.failure = none)
      (count : r.seen.length = r.plan.total) : FrontMove r none { r with front := .syncing }
  | unsynced {f : Failure} (hf : r.front = .syncing) :
      FrontMove r (some f) { r with front := .clearing f }
  | miscount {f : Failure} (hf : r.front = .syncing) (count : r.written ≠ r.plan.size) :
      FrontMove r none { r with front := .clearing f }
  | sync (hf : r.front = .syncing) (count : r.written = r.plan.size) :
      FrontMove r none { r with front := .naming }
  | unnamed {f : Failure} (hf : r.front = .naming) :
      FrontMove r (some f) { r with front := .clearing f }
  | name {tree : Tree} (hf : r.front = .naming)
      (hr : r.tree.rename r.folder r.temporary r.name = .ok tree) :
      FrontMove r none { r with front := .finished (.ok r.written), tree := tree }
  | clear {f : Failure} (hf : r.front = .clearing f) :
      FrontMove r none
        { r with front := .finished (.error f), tree := r.tree.erase r.temporaryPath }

inductive WriterMove (r : Receiver) (n : Nat) : Option Failure → Receiver → Prop where
  | idle {c : Crew Piece Errand} (m : r.toCrew.IdleMove .taken n c) :
      WriterMove r n none { r with toCrew := c }
  | drop {p : Piece} (hw : r.workers[n]? = some (.busy (.taken p))) (ha : r.aborted = true) :
      WriterMove r n none (r.setWriter n .waiting)
  | ready {p : Piece} (hw : r.workers[n]? = some (.busy (.taken p))) (ha : r.aborted = false) :
      WriterMove r n none (r.setWriter n (.busy (.writing p)))
  | write {p : Piece} (hw : r.workers[n]? = some (.busy (.writing p))) :
      WriterMove r n none
        ({ r.write p p.data.length with written := r.written + p.data.length }.setWriter n .waiting)
  | fail {p : Piece} {count : Nat} {f : Failure} (hw : r.workers[n]? = some (.busy (.writing p))) :
      WriterMove r n (some f)
        ({ r.write p count with aborted := true, failure := r.failure.or (some f) }.setWriter n
          .waiting)

theorem frontMove_of_step {fault : Option Failure} (h : stepFront fault r = some q) :
    FrontMove r (Move.fault? r (.front fault)) q := by
  unfold stepFront at h
  split at h <;> rename_i hf <;> simp only [Move.fault?, hf]
  · split at h <;> rename_i hi
    · cases h
      exact .finish hf hi
    · split at h <;> rename_i ha
      · cases h
        exact .stop hf hi ha
      · have ha' : r.aborted = false := Bool.not_eq_true _ ▸ ha
        split at h <;> rename_i hp <;> cases h
        · exact .take hf hi ha' hp
        · exact .refuse hf hi ha' hp
  · split at h <;> cases h
    exact .enqueue hf ‹_›
  · split at h
    · split at h <;> rename_i hv
      · cases h
        exact .fail hf ‹_› hv
      · split at h <;> rename_i count <;> cases h
        · exact .complete hf ‹_› hv count
        · exact .lack hf ‹_› hv count
    · cases h
  · split at h
    · cases h
      exact .unsynced hf
    · split at h <;> rename_i count <;> cases h
      · exact .sync hf count
      · exact .miscount hf count
  · split at h
    · cases h
      exact .unnamed hf
    · cases hr : r.tree.rename r.folder r.temporary r.name with
      | ok tree =>
        rw [hr] at h
        cases h
        exact .name hf hr
      | error f =>
        rw [hr] at h
        cases h
        exact .unnamed hf
  · cases h
    exact .clear hf
  · cases h

theorem writerMove_of_step {fault : Option (Nat × Failure)} (h : stepWriter n fault r = some q) :
    WriterMove r n (Move.fault? r (.writer n fault)) q := by
  unfold stepWriter at h
  split at h
  · rename_i hw
    simp only [Move.fault?, hw]
    cases h
    cases ha : r.aborted with
    | true => exact .drop hw ha
    | false => exact .ready hw ha
  · rename_i hw
    simp only [Move.fault?, hw]
    split at h <;> cases h
    · exact .write hw
    · exact .fail hw
  · obtain ⟨c, hc, rfl⟩ := Option.map_eq_some_iff.1 h
    have m := Crew.stepIdle_eq_some_iff.1 hc
    have harmless : Move.fault? r (.writer n fault) = none := by
      cases m with
      | turn hw | take hw | leave hw => simp only [Move.fault?, hw]
    exact harmless ▸ .idle m

theorem stepWriter_of_idle {c : Crew Piece Errand} (fault : Option (Nat × Failure))
    (m : r.toCrew.IdleMove .taken n c) : stepWriter n fault r = some { r with toCrew := c } := by
  have made := Crew.stepIdle_eq_some_iff.2 m
  cases m with
  | turn hw | take hw | leave hw => simp only [stepWriter, hw, made, Option.map_some]

theorem fault?_writer (r : Receiver) (n : Nat) : Move.fault? r (.writer n none) = none := by
  simp only [Move.fault?]
  split <;> rfl

theorem WriterMove.present {fault : Option Failure} (move : WriterMove r n fault q) :
    r.Present n := by
  cases move with
  | idle m => exact m.present
  | drop hw | ready hw | write hw | fail hw => exact ⟨_, hw, nofun⟩

theorem reads_of_step {m : Move} (h : step m r = some q) (hq : q.front.reads = true) :
    r.front.reads = true := by
  cases m with
  | front fault =>
    have move := frontMove_of_step h
    generalize Move.fault? r (.front fault) = met at move
    cases move <;> simp_all [Front.reads, Receiver.close]
  | writer n fault =>
    have move := writerMove_of_step h
    generalize Move.fault? r (.writer n fault) = met at move
    cases move <;> exact hq

/-! ## Progress -/

/-- While a chunk waits, or none will come, some writer that is there can move. -/
theorem exists_writer (present : ∃ n, r.Present n)
    (fed : r.queue ≠ [] ∨ r.closed = true) : ∃ n q, stepWriter n none r = some q := by
  rcases Crew.busy_or_idle .taken present fed with ⟨n, e, hn⟩ | ⟨n, c, m⟩
  · cases e with
    | taken p | writing p => exact ⟨n, _, by simp only [stepWriter, hn]; rfl⟩
  · exact ⟨n, _, stepWriter_of_idle none m⟩

/-- Until it has an answer, somebody at the receiver has a move that works: when the front waits for
the writers, one of them is there and can go on. -/
theorem exists_move (manned : r.workers ≠ []) (loyal : r.Loyal)
    (closed : ∀ failure, r.front = .draining failure → r.closed = true)
    (unfinished : ∀ v, r.front ≠ .finished v) :
    ∃ m q, m.works = true ∧ step m r = some q := by
  have writer (h : ∃ n q, stepWriter n none r = some q) :
      ∃ m q, m.works = true ∧ step m r = some q := by
    obtain ⟨n, q, h⟩ := h
    exact ⟨.writer n none, q, rfl, h⟩
  have front (h : (stepFront none r).isSome) : ∃ m q, m.works = true ∧ step m r = some q := by
    obtain ⟨q, hq⟩ := Option.isSome_iff_exists.1 h
    exact ⟨.front none, q, rfl, hq⟩
  cases hf : r.front with
  | reading =>
    refine front ?_
    simp only [stepFront, hf]
    split
    · rfl
    · split
      · rfl
      · split <;> rfl
  | enqueuing p =>
    by_cases room : r.queue.length < queueDepth
    · exact front (by simp only [stepFront, hf, if_pos room]; rfl)
    · have full : r.queue ≠ [] := fun empty => room (by rw [empty]; decide)
      exact writer (exists_writer (loyal.present manned full) (.inl full))
  | draining failure =>
    by_cases gone : r.deserted = true
    · refine front ?_
      simp only [stepFront, hf, if_pos gone]
      split
      · rfl
      · split <;> rfl
    · have present := Crew.deserted_eq_false_iff.1 (Bool.not_eq_true _ ▸ gone)
      exact writer (exists_writer present (.inr (closed failure hf)))
  | syncing | naming =>
    refine front ?_
    simp only [stepFront, hf]
    split <;> rfl
  | clearing f => exact front (by simp only [stepFront, hf]; rfl)
  | finished v => exact absurd hf (unfinished v)

/-! ## Courses -/

/-- What moves lead to, and the work that has failed on the way, in order. -/
inductive Course (r₀ : Receiver) : List Failure → Receiver → Prop where
  | start : Course r₀ [] r₀
  | move {fs : List Failure} {r q : Receiver} {m : Move} (course : Course r₀ fs r)
      (h : step m r = some q) : Course r₀ (fs ++ (m.fault? r).toList) q

theorem Course.run (schedule : Schedule Move) : ∃ fs, Course r₀ fs (machine.run schedule r₀) :=
  Machine.run_induction (P := fun r => ∃ fs, Course r₀ fs r) ⟨[], .start⟩
    fun _ ⟨_, course⟩ h => ⟨_, course.move h⟩

end Strongbox.Receiving
