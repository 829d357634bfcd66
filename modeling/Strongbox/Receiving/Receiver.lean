import Strongbox.Crew
import Strongbox.Receiving.Announcement
import Strongbox.Tree

/-!
# Receiver

One download being received. A front takes frames off the stream and puts their chunks into a queue;
writers take turns at the queue and write each chunk at its place in a temporary file, which takes
its name only when it is whole. Any of them may move next, and any work on a file may fail.
-/

namespace Strongbox.Receiving

open Message

def queueDepth : Nat := 100

/-- Where the front stands. -/
inductive Front where
  /-- It waits for a frame. -/
  | reading
  /-- It waits for room in the queue. -/
  | enqueuing (p : Piece)
  /-- It has closed the queue and waits for the writers to leave. -/
  | draining (failure : Option Failure)
  /-- It is about to make sure that all is written. -/
  | syncing
  /-- It is about to give the file its name. -/
  | naming
  /-- It is about to remove the temporary file. -/
  | clearing (failure : Failure)
  /-- It has an answer. -/
  | finished (verdict : Except Failure Nat)

/-- What a writer does with a chunk. -/
inductive Errand where
  /-- It is about to see whether the download goes on. -/
  | taken (p : Piece)
  /-- It is about to write the chunk. -/
  | writing (p : Piece)

/-- One download being received. The writers are its crew, fed with chunks. -/
structure Receiver extends Crew Piece Errand where
  plan : Plan
  /-- The folder of the file. -/
  folder : Path
  /-- The name that the file is to have. -/
  name : String
  /-- The name of the temporary file. -/
  temporary : String
  tree : Tree
  front : Front := .reading
  /-- What is still to come of the stream. -/
  inbound : List Item
  /-- Indices of the chunks taken off the stream. -/
  seen : List Nat := []
  /-- Bytes written. -/
  written : Nat := 0
  /-- Nothing more is to be written. -/
  aborted : Bool := false
  /-- The first failure of a writer. -/
  failure : Option Failure := none

/-- Who moves next. Work on a file may fail; a write that fails has written some of its bytes. -/
inductive Move where
  | front (fault : Option Failure)
  | writer (n : Nat) (fault : Option (Nat × Failure))

namespace Receiver

def temporaryPath (r : Receiver) : Path := r.folder ++ [r.temporary]

def target (r : Receiver) : Path := r.folder ++ [r.name]

def setWriter (r : Receiver) (n : Nat) (w : Hand Errand) : Receiver :=
  { r with toCrew := r.toCrew.setWorker n w }

def close (r : Receiver) (failure : Option Failure) : Receiver :=
  { r with front := .draining failure, closed := true }

/-- A writer has put some bytes of a chunk at its place in the temporary file. -/
def write (r : Receiver) (p : Piece) (n : Nat) : Receiver :=
  { r with tree := r.tree.writeAt r.temporaryPath (chunkOffset p.index r.plan.chunkSize)
                     (p.data.take n) }

end Receiver

/-- The name of a temporary file, of which a part is drawn. -/
def temporaryName (drawn : String) : String := ".vault-" ++ drawn ++ ".part"

/-- A receiver that has just begun, its temporary file empty. At least one writer is at work. With
more writers than fit the call breaks down, and its temporary file is taken away again. -/
def Receiver.start (a : Announcement) (writers : Nat) (drawn : String) (folder : Path)
    (inbound : List Item) (tree : Tree) : Except (Halt Failure) Receiver := do
  let tree ← tree.create folder (temporaryName drawn)
  if Crew.Fits writers then
    return { plan := a.plan, folder := folder, name := a.name, temporary := temporaryName drawn
             tree := tree, inbound := inbound
             workers := List.replicate (max writers 1) .waiting }
  else throw .aborted

def stepFront (fault : Option Failure) (r : Receiver) : Option Receiver :=
  match r.front with
  | .reading =>
    match r.inbound with
    | [] => some (r.close none)
    | item :: rest =>
      if r.aborted then some ({ r with inbound := rest }.close none)
      else
        match piece r.plan r.seen item with
        | .ok p => some { r with front := .enqueuing p, inbound := rest, seen := p.index :: r.seen }
        | .error f => some ({ r with inbound := rest }.close (some f))
  | .enqueuing p =>
    if r.queue.length < queueDepth then
      some { r with front := .reading, queue := r.queue ++ [p] }
    else none
  | .draining failure =>
    if r.deserted then
      match failure.or r.failure with
      | some f => some { r with front := .clearing f }
      | none =>
        if r.seen.length = r.plan.total then some { r with front := .syncing }
        else
          some { r with front := .clearing (.validation ("received " ++ toString r.seen.length
            ++ " chunks, expected " ++ toString r.plan.total)) }
    else none
  | .syncing =>
    match fault with
    | some f => some { r with front := .clearing f }
    | none =>
      if r.written = r.plan.size then some { r with front := .naming }
      else
        some { r with front := .clearing (.validation ("wrote " ++ toString r.written
          ++ " bytes, expected " ++ toString r.plan.size)) }
  | .naming =>
    match fault with
    | some f => some { r with front := .clearing f }
    | none =>
      match r.tree.rename r.folder r.temporary r.name with
      | .ok tree => some { r with front := .finished (.ok r.written), tree := tree }
      | .error f => some { r with front := .clearing f }
  | .clearing f =>
    some { r with front := .finished (.error f), tree := r.tree.erase r.temporaryPath }
  | .finished _ => none

def stepWriter (n : Nat) (fault : Option (Nat × Failure)) (r : Receiver) : Option Receiver :=
  match r.workers[n]? with
  | some (.busy (.taken p)) =>
    some (r.setWriter n (if r.aborted then .waiting else .busy (.writing p)))
  | some (.busy (.writing p)) =>
    match fault with
    | none =>
      let r := r.write p p.data.length
      some ({ r with written := r.written + p.data.length }.setWriter n .waiting)
    | some (count, f) =>
      let r := r.write p count
      some ({ r with aborted := true, failure := r.failure.or (some f) }.setWriter n .waiting)
  | _ => (r.toCrew.stepIdle .taken n).map fun c => { r with toCrew := c }

def step (m : Move) (r : Receiver) : Option Receiver :=
  match m with
  | .front fault => stepFront fault r
  | .writer n fault => stepWriter n fault r

/-! ## A bound on the moves left -/

/-- What is left for the front, `inbound` frames being still to come. -/
def Front.weight (inbound : Nat) : Front → Nat
  | finished _ => 0
  | clearing _ => 1
  | naming => 2
  | syncing => 3
  | draining _ => 4
  | reading => 7 * inbound + 5
  | enqueuing _ => 7 * inbound + 11

def Errand.weight : Errand → Nat
  | writing _ => 3
  | taken _ => 4

/-- A bound on the moves left. -/
def Receiver.weight (r : Receiver) : Nat :=
  r.front.weight r.inbound.length + r.toCrew.weight Errand.weight 5

theorem weight_stepFront {fault : Option Failure} {r q : Receiver}
    (h : stepFront fault r = some q) : q.weight < r.weight := by
  unfold stepFront at h
  split at h <;> rename_i hf
  · split at h
    · rename_i hi
      cases h
      simp [Receiver.weight, Crew.weight, Receiver.close, hf, Front.weight]
    · rename_i item rest hi
      split at h
      · cases h
        simp [Receiver.weight, Crew.weight, Receiver.close, hf, hi, Front.weight]
      · split at h
        · cases h
          simp only [Receiver.weight, Crew.weight, hf, hi, Front.weight, List.length_cons]
          omega
        · cases h
          simp [Receiver.weight, Crew.weight, Receiver.close, hf, hi, Front.weight]
  · split at h
    · cases h
      simp only [Receiver.weight, Crew.weight, hf, Front.weight, List.length_append,
        List.length_cons, List.length_nil]
      omega
    · cases h
  · split at h
    · split at h
      · cases h; simp [Receiver.weight, Crew.weight, hf, Front.weight]
      · split at h <;> cases h <;> simp [Receiver.weight, Crew.weight, hf, Front.weight]
    · cases h
  · split at h
    · cases h; simp [Receiver.weight, Crew.weight, hf, Front.weight]
    · split at h <;> cases h <;> simp [Receiver.weight, Crew.weight, hf, Front.weight]
  · split at h
    · cases h; simp [Receiver.weight, Crew.weight, hf, Front.weight]
    · split at h <;> cases h <;> simp [Receiver.weight, Crew.weight, hf, Front.weight]
  · cases h; simp [Receiver.weight, Crew.weight, hf, Front.weight]
  · cases h

/-- A writer elsewhere, with less left to do, makes the receiver lighter. -/
theorem weight_setWriter {r : Receiver} {n : Nat} {v w : Hand Errand}
    (hw : r.workers[n]? = some v) (lighter : w.weight Errand.weight < v.weight Errand.weight) :
    (r.setWriter n w).weight < r.weight := by
  have := Crew.weight_setWorker Errand.weight 5 (w := w) hw
  simp only [Receiver.weight, Receiver.setWriter]
  omega

theorem weight_stepWriter {n : Nat} {fault : Option (Nat × Failure)} {r q : Receiver}
    (h : stepWriter n fault r = some q) : q.weight < r.weight := by
  unfold stepWriter at h
  split at h
  · rename_i p hw
    cases h
    refine weight_setWriter hw ?_
    split <;> simp [Hand.weight, Errand.weight]
  · rename_i p hw
    have lighter : (2 : Nat) < 3 := by decide
    split at h <;> cases h <;> exact weight_setWriter hw lighter
  · obtain ⟨c, hc, rfl⟩ := Option.map_eq_some_iff.1 h
    have := Crew.weight_stepIdle Errand.weight 5 (by simp [Errand.weight]) hc
    simp only [Receiver.weight]
    omega

/-- Every move lowers the weight, so there is no endless row of moves. -/
theorem weight_step {m : Move} {r q : Receiver} (h : step m r = some q) : q.weight < r.weight := by
  cases m with
  | front fault => exact weight_stepFront h
  | writer n fault => exact weight_stepWriter h

end Strongbox.Receiving
