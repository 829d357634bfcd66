import Strongbox.Download.Frames
import Strongbox.Store
import Strongbox.Sum

/-!
# Download distributor

One download at work. Each worker fetches one range of chunks, opens them, and puts them into a
queue that the reader empties; when all have left, the failures among them become the last item.
Any of them may move next.
-/

namespace Strongbox.Download

open Message

/-- How many items may wait for the reader. -/
def queueDepth : Nat := 10

/-- Where a worker stands. -/
inductive Worker where
  /-- It is about to fetch its range. -/
  | fetching (range : Span)
  /-- It is about to open the next of its chunks. -/
  | opening (chunks : List Chunk)
  /-- It waits for room for a frame. -/
  | sending (c : Message.Chunk) (others : List Chunk)
  /-- It has left. -/
  | exited

/-- Where the end of the stream stands. -/
inductive Tail where
  /-- Workers are still there. -/
  | waiting
  /-- It waits for room for the last item. -/
  | reporting (s : Status)
  /-- Nothing more will come. -/
  | ended

structure Distributor where
  file : Int
  total : Nat
  workers : List Worker
  /-- Items that wait for the reader. -/
  queue : List Item
  /-- What the reader has taken, in order. -/
  taken : List Item := []
  /-- The failures of workers. -/
  failures : List Failure := []
  /-- Nothing more is to be sent. -/
  aborted : Bool := false
  /-- The reader has left. -/
  hungUp : Bool := false
  tail : Tail := .waiting

/-- A download that has just begun: the metadata wait, and each range has a worker unless it is
empty. -/
def Distributor.start (r : Record) (ranges : List Span) : Distributor where
  file := r.id
  total := r.totalChunks
  workers := (ranges.filter fun range => !range.isEmpty).map .fetching
  queue := [.ok (.metadata r.metadata)]

inductive Move where
  | worker (n : Nat)
  | closer
  | reader
  | hangUp
  deriving Repr, DecidableEq

def Worker.isGone : Worker → Bool
  | exited => true
  | _ => false

namespace Distributor

def deserted (d : Distributor) : Bool := d.workers.all Worker.isGone

def put (d : Distributor) (item : Item) : Distributor := { d with queue := d.queue ++ [item] }

def setWorker (d : Distributor) (n : Nat) (w : Worker) : Distributor :=
  { d with workers := d.workers.set n w }

/-- A worker leaves, and its failure is noted. -/
def leave (d : Distributor) (n : Nat) (f : Failure) : Distributor :=
  { d with failures := d.failures ++ [f] }.setWorker n .exited

/-- A worker leaves with a failure, which stops the others. -/
def fail (d : Distributor) (n : Nat) (f : Failure) : Distributor :=
  { d with aborted := true }.leave n f

/-- Nothing waits, and nothing more will come. -/
def isOver (d : Distributor) : Bool :=
  d.queue.isEmpty && (match d.tail with | .ended => true | _ => false)

end Distributor

variable {σ : Type} [Store σ]

def stepWorker (key : Key) (s : σ) (d : Distributor) (n : Nat) : Option Distributor :=
  match d.workers[n]? with
  | none | some .exited => none
  | some (.fetching range) =>
    match Store.chunks s d.file range with
    | .error .aborted => some (d.leave n (.persistence "range worker panicked"))
    | .error (.failed f) => some (d.fail n f)
    | .ok chunks =>
      match checkRange range chunks with
      | .error f => some (d.fail n f)
      | .ok chunks => some (d.setWorker n (.opening chunks))
  | some (.opening []) => some (d.setWorker n .exited)
  | some (.opening (c :: others)) =>
    if d.aborted then some (d.setWorker n .exited)
    else
      match openChunk key d.total c with
      | .error f => some (d.fail n f)
      | .ok c => some (d.setWorker n (.sending c others))
  | some (.sending c others) =>
    if d.hungUp then some ({ d with aborted := true }.setWorker n .exited)
    else if d.queue.length < queueDepth then
      some ((d.put (.ok (.chunk c))).setWorker n (.opening others))
    else none

/-- What the end of the stream does next: after the workers it reports their failures, if any. -/
def stepCloser (d : Distributor) : Option Distributor :=
  match d.tail with
  | .waiting =>
    if d.deserted then
      match Failure.collect d.failures with
      | some f => some { d with tail := .reporting f.status }
      | none => some { d with tail := .ended }
    else none
  | .reporting s =>
    if d.hungUp then some { d with tail := .ended }
    else if d.queue.length < queueDepth then
      some { d.put (.error s) with tail := .ended }
    else none
  | .ended => none

/-- What comes of a move, if it can be made. A reader that has left takes nothing. -/
def step (key : Key) (m : Move) (s : σ) (d : Distributor) : Option Distributor :=
  match m with
  | .worker n => stepWorker key s d n
  | .closer => stepCloser d
  | .reader =>
    match d.hungUp, d.queue with
    | false, item :: rest => some { d with queue := rest, taken := d.taken ++ [item] }
    | _, _ => none
  | .hangUp => if d.hungUp then none else some { d with hungUp := true, queue := [] }

/-! ## A bound on the moves left -/

def Worker.weight : Worker → Nat
  | exited => 0
  | opening chunks => 1 + 3 * chunks.length
  | sending _ others => 3 + 3 * others.length
  | fetching range => 2 + 3 * range.length

def Tail.weight : Tail → Nat
  | ended => 0
  | reporting _ => 2
  | waiting => 3

/-- A bound on the moves left. -/
def Distributor.weight (d : Distributor) : Nat :=
  sumOver Worker.weight d.workers + d.queue.length + d.tail.weight + (!d.hungUp).toNat

theorem weight_put (d : Distributor) (item : Item) : (d.put item).weight = d.weight + 1 := by
  simp only [Distributor.weight, Distributor.put, List.length_append, List.length_cons,
    List.length_nil]
  omega

theorem weight_setWorker {d : Distributor} {n : Nat} {v w : Worker} (h : d.workers[n]? = some v) :
    (d.setWorker n w).weight + v.weight = d.weight + w.weight := by
  have := sumOver_set Worker.weight w h
  simp only [Distributor.weight, Distributor.setWorker]
  omega

theorem weight_leave {d : Distributor} {n : Nat} {v : Worker} (f : Failure)
    (h : d.workers[n]? = some v) : (d.leave n f).weight + v.weight = d.weight :=
  weight_setWorker (d := { d with failures := d.failures ++ [f] }) (w := .exited) h

theorem weight_fail {d : Distributor} {n : Nat} {v : Worker} (f : Failure)
    (h : d.workers[n]? = some v) : (d.fail n f).weight + v.weight = d.weight :=
  weight_leave (d := { d with aborted := true }) f h

theorem checkRange_ok {range : Span} {chunks fetched : List Chunk}
    (h : checkRange range chunks = .ok fetched) : fetched.length = range.length := by
  unfold checkRange at h
  split at h
  · cases h; assumption
  · cases h

theorem weight_stepWorker {key : Key} {s : σ} {d e : Distributor} {n : Nat}
    (h : stepWorker key s d n = some e) : e.weight < d.weight := by
  unfold stepWorker at h
  split at h
  · cases h
  · cases h
  · rename_i range hw
    split at h
    · cases h
      have := weight_leave (.persistence "range worker panicked") hw
      simp only [Worker.weight] at this
      omega
    · rename_i f _
      cases h
      have := weight_fail f hw
      simp only [Worker.weight] at this
      omega
    · split at h
      · rename_i f _
        cases h
        have := weight_fail f hw
        simp only [Worker.weight] at this
        omega
      · rename_i fetched hc
        cases h
        have := weight_setWorker (w := .opening fetched) hw
        simp only [Worker.weight, checkRange_ok hc] at this
        omega
  · rename_i hw
    cases h
    have := weight_setWorker (w := .exited) hw
    simp only [Worker.weight] at this
    omega
  · rename_i c others hw
    split at h
    · cases h
      have := weight_setWorker (w := .exited) hw
      simp only [Worker.weight] at this
      omega
    · split at h
      · rename_i f _
        cases h
        have := weight_fail f hw
        simp only [Worker.weight] at this
        omega
      · rename_i frame _
        cases h
        have := weight_setWorker (w := .sending frame others) hw
        simp only [Worker.weight, List.length_cons] at this
        omega
  · rename_i c others hw
    split at h
    · cases h
      have := weight_setWorker (d := { d with aborted := true }) (w := .exited) hw
      have same : { d with aborted := true }.weight = d.weight := rfl
      simp only [Worker.weight] at this
      omega
    · split at h
      · cases h
        have := weight_setWorker (d := d.put (.ok (.chunk c))) (w := .opening others) hw
        have grown := weight_put d (.ok (.chunk c))
        simp only [Worker.weight] at this
        omega
      · cases h

/-- Every move lowers the weight, so there is no endless row of moves. -/
theorem weight_step {key : Key} {m : Move} {s : σ} {d e : Distributor}
    (h : step key m s d = some e) : e.weight < d.weight := by
  cases m with
  | worker n => exact weight_stepWorker h
  | closer =>
    simp only [step, stepCloser] at h
    split at h
    · rename_i ht
      split at h
      · split at h <;> cases h <;> simp [Distributor.weight, ht, Tail.weight]
      · cases h
    · rename_i status ht
      split at h
      · cases h
        simp [Distributor.weight, ht, Tail.weight]
      · split at h <;> cases h
        simp [Distributor.weight, Distributor.put, ht, Tail.weight]
        omega
    · cases h
  | reader =>
    simp only [step] at h
    split at h
    · rename_i hq
      cases h
      simp [Distributor.weight, hq]
    · cases h
  | hangUp =>
    simp only [step] at h
    split at h <;> cases h
    rename_i hh
    simp only [Bool.not_eq_true] at hh
    simp only [Distributor.weight, hh, List.length_nil, Bool.not_false, Bool.not_true,
      Bool.toNat_true, Bool.toNat_false]
    omega

end Strongbox.Download
