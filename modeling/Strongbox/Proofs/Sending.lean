import Strongbox.Proofs.Crew
import Strongbox.Sending.Sender

/-!
# Runs of a sender

What a row of moves of a sender can lead to, and the moves of its parties one by one.
-/

namespace Strongbox.Sending

/-- What a row of moves can lead to. -/
inductive Reaches (s : Sender) : Sender → Prop where
  | refl : Reaches s s
  | next {t u : Sender} (m : Move) : Reaches s t → step m t = some u → Reaches s u

inductive ProducerMove (s : Sender) : Sender → Prop where
  | offer {i : Nat} (hp : s.producer = .checking i) (hi : i < s.plan.total)
      (ha : s.aborted = false) : ProducerMove s { s with producer := .enqueuing i }
  | close {i : Nat} (hp : s.producer = .checking i) (hi : ¬(i < s.plan.total ∧ s.aborted = false)) :
      ProducerMove s { s with producer := .draining, closed := true }
  | put {i : Nat} (hp : s.producer = .enqueuing i) (room : s.queue.length < queueDepth) :
      ProducerMove s { s with producer := .checking (i + 1), queue := s.queue ++ [i] }
  | finish (hp : s.producer = .draining) (gone : s.deserted = true) :
      ProducerMove s { s with producer := .finished }

inductive WorkerMove (s : Sender) (n : Nat) : Sender → Prop where
  | idle {c : Crew Nat Errand} (m : s.toCrew.IdleMove .taken n c) :
      WorkerMove s n { s with toCrew := c }
  | stop {i : Nat} (hw : s.workers[n]? = some (.busy (.taken i))) (ha : s.aborted = true) :
      WorkerMove s n (s.setWorker n .exited)
  | cut {i : Nat} {c : Message.Chunk} (hw : s.workers[n]? = some (.busy (.taken i)))
      (ha : s.aborted = false) (hc : cut? s.payload s.plan i = some c) :
      WorkerMove s n (s.setWorker n (.busy (.sending i c)))
  | stray {i : Nat} (hw : s.workers[n]? = some (.busy (.taken i))) (ha : s.aborted = false)
      (hc : cut? s.payload s.plan i = none) :
      WorkerMove s n (s.fail n (.validation ("chunk " ++ toString i ++ " out of range")))
  | lose {i : Nat} {c : Message.Chunk} (hw : s.workers[n]? = some (.busy (.sending i c)))
      (hh : s.hungUp = true) :
      WorkerMove s n (s.fail n (.transport ("upload stream closed before chunk " ++ toString i
        ++ " was sent")))
  | send {i : Nat} {c : Message.Chunk} (hw : s.workers[n]? = some (.busy (.sending i c)))
      (hh : s.hungUp = false) (room : s.unread < s.depth) :
      WorkerMove s n
        ({ s with sent := s.sent ++ [c], unread := s.unread + 1 }.setWorker n .waiting)

theorem stepProducer_eq_some_iff {s t : Sender} : stepProducer s = some t ↔ ProducerMove s t := by
  constructor
  · intro h
    unfold stepProducer at h
    split at h
    · rename_i i hp
      split at h
      · rename_i hi
        cases h
        exact .offer hp hi.1 hi.2
      · rename_i hi
        cases h
        exact .close hp hi
    · rename_i i hp
      split at h <;> cases h
      exact .put hp ‹_›
    · rename_i hp
      split at h <;> cases h
      exact .finish hp ‹_›
    · cases h
  · intro h
    cases h with
    | offer hp hi ha => simp [stepProducer, hp, hi, ha]
    | close hp hi => simp only [stepProducer, hp, if_neg hi]
    | put hp room => simp [stepProducer, hp, room]
    | finish hp gone => simp [stepProducer, hp, gone]

theorem stepWorker_eq_some_iff {s t : Sender} {n : Nat} :
    stepWorker s n = some t ↔ WorkerMove s n t := by
  constructor
  · intro h
    unfold stepWorker at h
    split at h
    · rename_i i hw
      split at h
      · rename_i ha
        cases h
        exact .stop hw ha
      · rename_i ha
        rw [Bool.not_eq_true] at ha
        split at h
        · rename_i hc
          cases h
          exact .cut hw ha hc
        · rename_i hc
          cases h
          exact .stray hw ha hc
    · rename_i i c hw
      split at h
      · rename_i hh
        cases h
        exact .lose hw hh
      · rename_i hh
        rw [Bool.not_eq_true] at hh
        split at h <;> cases h
        exact .send hw hh ‹_›
    · obtain ⟨c, hc, rfl⟩ := Option.map_eq_some_iff.1 h
      exact .idle (Crew.stepIdle_eq_some_iff.1 hc)
  · intro h
    cases h with
    | idle m =>
      have made := Crew.stepIdle_eq_some_iff.2 m
      cases m with
      | turn hw | take hw | leave hw => simp only [stepWorker, hw, made, Option.map_some]
    | stop hw ha => simp [stepWorker, hw, ha]
    | cut hw ha hc => simp [stepWorker, hw, ha, hc]
    | stray hw ha hc => simp [stepWorker, hw, ha, hc]
    | lose hw hh => simp [stepWorker, hw, hh]
    | send hw hh room => simp [stepWorker, hw, hh, room]

theorem WorkerMove.present {s t : Sender} {n : Nat} (move : WorkerMove s n t) :
    s.Present n := by
  cases move with
  | idle m => exact m.present
  | stop hw | cut hw | stray hw | lose hw | send hw => exact ⟨_, hw, nofun⟩

@[simp] theorem Sender.workers_setWorker (s : Sender) (n : Nat) (w : Hand Errand) :
    (s.setWorker n w).workers = s.workers.set n w := rfl

@[simp] theorem Sender.workers_fail (s : Sender) (n : Nat) (f : Failure) :
    (s.fail n f).workers = s.workers.set n .exited := rfl

theorem exists_cut (payload : Bytes) {plan : Plan} {i : Nat} (h : i < plan.total) :
    ∃ c, cut? payload plan i = some c := by
  obtain ⟨sp, hsp⟩ := Option.isSome_iff_exists.1 ((plan.span?_isSome_iff i).2 h)
  exact ⟨_, by rw [cut?, hsp]; rfl⟩

/-- A sender never changes its payload, its plan or the number of its workers. -/
theorem step_const {m : Move} {s t : Sender} (h : step m s = some t) :
    t.payload = s.payload ∧ t.plan = s.plan ∧ t.workers.length = s.workers.length := by
  cases m with
  | producer => cases stepProducer_eq_some_iff.1 h <;> exact ⟨rfl, rfl, rfl⟩
  | worker n =>
    cases stepWorker_eq_some_iff.1 h with
    | idle m => exact ⟨rfl, rfl, m.length_eq⟩
    | stop | cut | stray | lose | send => exact ⟨rfl, rfl, List.length_set⟩
  | reader | hangUp =>
    simp only [step] at h
    split at h <;> cases h
    exact ⟨rfl, rfl, rfl⟩

namespace Reaches

variable {s t u : Sender}

theorem producer (h : Reaches s t) (m : ProducerMove t u) : Reaches s u :=
  h.next .producer (stepProducer_eq_some_iff.2 m)

theorem worker {n : Nat} (h : Reaches s t) (m : WorkerMove t n u) : Reaches s u :=
  h.next (.worker n) (stepWorker_eq_some_iff.2 m)

theorem trans (h : Reaches s t) (h' : Reaches t u) : Reaches s u := by
  induction h' with
  | refl => exact h
  | next m _ hm ih => exact ih.next m hm

/-- Moves that can all be made, one after another, lead somewhere. -/
theorem of_foldlM {moves : List Move} (h : moves.foldlM (fun s m => step m s) s = some t) :
    Reaches s t := by
  induction moves generalizing s with
  | nil =>
    cases h
    exact .refl
  | cons m moves ih =>
    obtain ⟨u, hu, h⟩ := Option.bind_eq_some_iff.1 h
    exact (Reaches.refl.next m hu).trans (ih h)

theorem const (h : Reaches s t) :
    t.payload = s.payload ∧ t.plan = s.plan ∧ t.workers.length = s.workers.length := by
  induction h with
  | refl => exact ⟨rfl, rfl, rfl⟩
  | next m _ hm ih =>
    obtain ⟨hpay, hplan, hlen⟩ := step_const hm
    exact ⟨hpay.trans ih.1, hplan.trans ih.2.1, hlen.trans ih.2.2⟩

/-- What can be taken one further at every number below `top` can be taken to `top`. -/
theorem climb (P : Nat → Sender → Prop) (top : Nat)
    (next : ∀ k t, k < top → P k t → ∃ u, Reaches t u ∧ P (k + 1) u) (h : P 0 s) :
    ∃ t, Reaches s t ∧ P top t := by
  suffices ∀ k ≤ top, ∃ t, Reaches s t ∧ P k t from this top (Nat.le_refl _)
  intro k hk
  induction k with
  | zero => exact ⟨s, .refl, h⟩
  | succ k ih =>
    obtain ⟨t, hst, ht⟩ := ih (Nat.le_of_succ_le hk)
    obtain ⟨u, htu, hu⟩ := next k t hk ht
    exact ⟨u, hst.trans htu, hu⟩

end Reaches

namespace Sender

/-- Neither the producer nor a worker can move. -/
def Idle (s : Sender) : Prop := step .producer s = none ∧ ∀ n, step (.worker n) s = none

/-- The stream takes a frame, or turns it away because its reader has left. -/
def Responsive (s : Sender) : Prop := s.hungUp = true ∨ s.unread < s.depth

variable {s : Sender}

theorem Idle.producer (h : s.Idle) (t : Sender) : ¬ProducerMove s t := by
  intro hm
  have := stepProducer_eq_some_iff.2 hm
  rw [show stepProducer s = none from h.1] at this
  cases this

theorem Idle.worker (h : s.Idle) (n : Nat) (t : Sender) : ¬WorkerMove s n t := by
  intro hm
  have := stepWorker_eq_some_iff.2 hm
  rw [show stepWorker s n = none from h.2 n] at this
  cases this

end Sender

end Strongbox.Sending
