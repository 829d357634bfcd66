import Strongbox.Crew
import Strongbox.Message
import Strongbox.Plan

/-!
# Sender

The sending side of an upload at work. A producer puts the indices of a plan into a queue; workers
take turns at the queue, cut their chunks from the payload, and put the frames into the stream,
whose reader may leave. Any of them may move next.
-/

namespace Strongbox.Sending

def queueDepth : Nat := 100

def streamDepth : Nat := 16

/-- Where the producer stands. -/
inductive Producer where
  /-- It is about to see whether index `i` is to be sent. -/
  | checking (i : Nat)
  /-- It waits for room for index `i`. -/
  | enqueuing (i : Nat)
  /-- It has closed the queue and waits for the workers to leave. -/
  | draining
  /-- It has an answer. -/
  | finished
  deriving Repr, DecidableEq

/-- What a worker does with an index. -/
inductive Errand where
  /-- It is about to cut the chunk. -/
  | taken (i : Nat)
  /-- It waits for room for a frame. -/
  | sending (i : Nat) (c : Message.Chunk)
  deriving Repr, DecidableEq

/-- The sending side of an upload at work. Its crew is fed with indices. -/
structure Sender extends Crew Nat Errand where
  payload : Bytes
  plan : Plan
  /-- How many frames may wait for the reader. -/
  depth : Nat
  producer : Producer := .checking 0
  /-- The chunks that the stream has accepted, in order. -/
  sent : List Message.Chunk := []
  /-- How many frames wait for the reader. -/
  unread : Nat
  /-- The reader has left. -/
  hungUp : Bool := false
  /-- Nothing more is to be sent. -/
  aborted : Bool := false
  /-- The first failure of a worker. -/
  failure : Option Failure := none

/-- The sending side of an upload that has just begun, with the metadata waiting for the reader. At
least one worker is at work. -/
def Sender.start (payload : Bytes) (plan : Plan) (workers : Nat) : Sender where
  payload := payload
  plan := plan
  depth := streamDepth
  workers := List.replicate (max workers 1) .waiting
  unread := 1

inductive Move where
  | producer
  | worker (n : Nat)
  | reader
  | hangUp
  deriving Repr, DecidableEq

/-- The chunk of a plan cut from the payload, if the plan has it. -/
def cut? (payload : Bytes) (plan : Plan) (i : Nat) : Option Message.Chunk :=
  (plan.span? i).map fun s =>
    ⟨(payload.drop s.start).take s.length, Int32.ofNat i, plan.isLast i⟩

namespace Sender

def setWorker (s : Sender) (n : Nat) (w : Hand Errand) : Sender :=
  { s with toCrew := s.toCrew.setWorker n w }

/-- A worker leaves with a failure, which stops the others. Only the first failure is kept. -/
def fail (s : Sender) (n : Nat) (f : Failure) : Sender :=
  { s with aborted := true, failure := s.failure.or (some f) }.setWorker n .exited

def verdict? (s : Sender) : Option (Except Failure Unit) :=
  match s.producer with
  | .finished => some (match s.failure with | some f => .error f | none => .ok ())
  | _ => none

end Sender

def stepProducer (s : Sender) : Option Sender :=
  match s.producer with
  | .checking i =>
    if i < s.plan.total ∧ s.aborted = false then some { s with producer := .enqueuing i }
    else some { s with producer := .draining, closed := true }
  | .enqueuing i =>
    if s.queue.length < queueDepth then
      some { s with producer := .checking (i + 1), queue := s.queue ++ [i] }
    else none
  | .draining => if s.deserted then some { s with producer := .finished } else none
  | .finished => none

def stepWorker (s : Sender) (n : Nat) : Option Sender :=
  match s.workers[n]? with
  | some (.busy (.taken i)) =>
    if s.aborted then some (s.setWorker n .exited)
    else
      match cut? s.payload s.plan i with
      | some c => some (s.setWorker n (.busy (.sending i c)))
      | none => some (s.fail n (.validation ("chunk " ++ toString i ++ " out of range")))
  | some (.busy (.sending i c)) =>
    if s.hungUp then
      some (s.fail n (.transport ("upload stream closed before chunk " ++ toString i
        ++ " was sent")))
    else if s.unread < s.depth then
      some ({ s with sent := s.sent ++ [c], unread := s.unread + 1 }.setWorker n .waiting)
    else none
  | _ => (s.toCrew.stepIdle .taken n).map fun c => { s with toCrew := c }

/-- What comes of a move, if it can be made. A reader that has left takes nothing. -/
def step (m : Move) (s : Sender) : Option Sender :=
  match m with
  | .producer => stepProducer s
  | .worker n => stepWorker s n
  | .reader =>
    if s.hungUp = false ∧ 0 < s.unread then some { s with unread := s.unread - 1 } else none
  | .hangUp => if s.hungUp then none else some { s with hungUp := true, unread := 0 }

/-! ## A bound on the moves left -/

/-- What is left for the producer of `total` indices. -/
def Producer.weight (total : Nat) : Producer → Nat
  | finished => 0
  | draining => 1
  | checking i => 7 * (total - i) + 2
  | enqueuing i => 7 * (total - (i + 1)) + 8

def Errand.weight : Errand → Nat
  | sending .. => 4
  | taken _ => 5

/-- A bound on the moves left. -/
def Sender.weight (s : Sender) : Nat :=
  s.producer.weight s.plan.total + s.toCrew.weight Errand.weight 5 + s.unread + (!s.hungUp).toNat

theorem weight_stepProducer {s t : Sender} (h : stepProducer s = some t) : t.weight < s.weight := by
  unfold stepProducer at h
  split at h
  · rename_i i hp
    split at h
    · cases h
      simp only [Sender.weight, Crew.weight, hp, Producer.weight]
      omega
    · cases h
      simp only [Sender.weight, Crew.weight, hp, Producer.weight]
      omega
  · rename_i i hp
    split at h
    · cases h
      simp only [Sender.weight, Crew.weight, hp, Producer.weight, List.length_append,
        List.length_cons, List.length_nil]
      omega
    · cases h
  · rename_i hp
    split at h
    · cases h
      simp only [Sender.weight, Crew.weight, hp, Producer.weight]
      omega
    · cases h
  · cases h

/-- A worker elsewhere, with less left to do, makes the sender lighter. -/
theorem weight_setWorker {s : Sender} {n : Nat} {v w : Hand Errand}
    (hw : s.workers[n]? = some v) (lighter : w.weight Errand.weight < v.weight Errand.weight) :
    (s.setWorker n w).weight < s.weight := by
  have := Crew.weight_setWorker Errand.weight 5 (w := w) hw
  simp only [Sender.weight, Sender.setWorker]
  omega

theorem weight_stepWorker {s t : Sender} {n : Nat} (h : stepWorker s n = some t) :
    t.weight < s.weight := by
  unfold stepWorker at h
  split at h
  · rename_i i hw
    have leaves : (0 : Nat) < 5 := by decide
    have sends : (4 : Nat) < 5 := by decide
    split at h
    · cases h
      exact weight_setWorker hw leaves
    · split at h <;> cases h
      · exact weight_setWorker hw sends
      · exact weight_setWorker hw leaves
  · rename_i i c hw
    split at h
    · cases h
      exact weight_setWorker hw (by decide : (0 : Nat) < 4)
    · split at h <;> cases h
      -- One more frame waits for the reader.
      have := Crew.weight_setWorker Errand.weight 5 (w := .waiting) hw
      simp only [Sender.weight, Sender.setWorker, Hand.weight, Errand.weight] at this ⊢
      omega
  · obtain ⟨c, hc, rfl⟩ := Option.map_eq_some_iff.1 h
    have := Crew.weight_stepIdle Errand.weight 5 (fun _ => Nat.le_refl _) hc
    simp only [Sender.weight]
    omega

/-- Every move lowers the weight, so there is no endless row of moves. -/
theorem weight_step {m : Move} {s t : Sender} (h : step m s = some t) : t.weight < s.weight := by
  cases m with
  | producer => exact weight_stepProducer h
  | worker n => exact weight_stepWorker h
  | reader =>
    simp only [step] at h
    split at h
    · cases h
      simp only [Sender.weight]
      omega
    · cases h
  | hangUp =>
    simp only [step] at h
    split at h <;> cases h
    rename_i hh
    simp only [Bool.not_eq_true] at hh
    simp only [Sender.weight, hh, Bool.not_false, Bool.not_true, Bool.toNat_true, Bool.toNat_false]
    omega

end Strongbox.Sending
