import Strongbox.Crew
import Strongbox.Store
import Strongbox.Upload.Offer

/-!
# Upload pipeline

One upload at work. A front takes frames off the stream and puts their chunks into a queue; workers
take turns at the queue, seal chunks and store them; an accumulator adds up what they report, and
hands the first failure to the front. Any of them may move next.
-/

namespace Strongbox.Upload

open Message

/-- How many chunks, and how many reports, may wait. -/
def queueDepth : Nat := 100

/-- What came of storing a chunk: its length, or a failure. -/
abbrev Outcome := Except Failure Nat

structure Summary where
  file : Int
  bytesReceived : Nat
  deriving Repr, DecidableEq

/-- A file under way. -/
structure Job where
  file : Int
  plan : Plan
  deriving Repr, DecidableEq

/-- Where the front stands. -/
inductive Front where
  /-- It waits for the first frame. -/
  | opening
  /-- It is about to make the file's record. -/
  | creating (o : Offer)
  /-- It waits for a frame or for a failure. -/
  | receiving (job : Job)
  /-- It waits for room in the queue. -/
  | enqueuing (job : Job) (t : Piece)
  /-- It has closed the queue and waits for the others to leave. -/
  | draining (job : Job) (failure : Option Failure)
  /-- It is about to mark the file as complete. -/
  | completing (job : Job)
  /-- It is about to remove what has been stored. -/
  | purging (job : Job) (failure : Failure)
  /-- It has an answer. -/
  | finished (verdict : Except Failure Summary)

/-- What a worker does with a chunk. -/
inductive Errand where
  /-- It is about to see whether the upload goes on. -/
  | taken (t : Piece)
  /-- It is about to seal and store the chunk. -/
  | storing (t : Piece)
  /-- It waits for room for its report. -/
  | reporting (o : Outcome)

/-- What an upload shows of where it stands. -/
inductive Phase where
  | awaitingMetadata
  | receivingChunks
  | finalizing
  | complete
  | failed
  deriving Repr, DecidableEq

/-- One upload at work. Its crew is fed with chunks. -/
structure Pipeline extends Crew Piece Errand where
  workers := []
  front : Front := .opening
  phase : Phase := .awaitingMetadata
  /-- What is still to come of the stream. -/
  inbound : List Item
  /-- How many workers there are to be. -/
  crew : Nat
  /-- Reports that wait for the accumulator. -/
  results : List Outcome := []
  /-- Bytes stored before the first failure. -/
  tally : Nat := 0
  /-- The accumulator has seen a failure. -/
  failed : Bool := false
  /-- The failure on its way to the front. -/
  slot : Option Failure := none
  /-- Nothing more is to be stored. -/
  aborted : Bool := false
  /-- Chunks taken off the stream. -/
  received : Nat := 0
  /-- The accumulator has left. -/
  drained : Bool := false

/-- An upload that has just begun. At least one worker is at work. -/
def Pipeline.start (workers : Nat) (inbound : List Item) : Pipeline :=
  { inbound := inbound, crew := max workers 1 }

/-- Who moves next. A worker that stores a chunk is given a nonce, unless none could be drawn. -/
inductive Move where
  | front
  | worker (n : Nat) (iv : Option Nonce)
  | accumulator

namespace Pipeline

def close (p : Pipeline) (job : Job) (failure : Option Failure) : Pipeline :=
  { p with front := .draining job failure, closed := true, aborted := p.aborted || failure.isSome }

def setWorker (p : Pipeline) (n : Nat) (w : Hand Errand) : Pipeline :=
  { p with toCrew := p.toCrew.setWorker n w }

end Pipeline

variable {σ : Type} [Store σ]

def stepFront (owner : Int) (now : Moment) (s : σ) (p : Pipeline) : Option (σ × Pipeline) :=
  match p.front with
  | .opening =>
    match offer p.inbound.head? with
    | .ok o => some (s, { p with front := .creating o, inbound := p.inbound.tail })
    | .error f =>
      some (s, { p with
        front := .finished (.error f), phase := .failed, inbound := p.inbound.tail })
  | .creating o =>
    match Store.create s now owner o.draft with
    | .ok (file, s) =>
      some (s, { p with front := .receiving ⟨file, o.plan⟩
                        phase := .receivingChunks
                        workers := List.replicate p.crew .waiting })
    | .error f => some (s, { p with front := .finished (.error f), phase := .failed })
  | .receiving job =>
    match p.slot, p.inbound with
    | some f, _ => some (s, { p with slot := none }.close job (some f))
    | none, [] => some (s, p.close job none)
    | none, item :: rest =>
      match piece job.plan item with
      | .ok t => some (s, { p with front := .enqueuing job t, inbound := rest
                                   received := p.received + 1 })
      | .error f => some (s, { p with inbound := rest }.close job (some f))
  | .enqueuing job t =>
    if p.queue.length < queueDepth then
      some (s, { p with front := .receiving job, queue := p.queue ++ [t] })
    else none
  | .draining job failure =>
    if p.deserted && p.drained then
      -- A failure found here passes through `finalizing` within this one move.
      match failure.or p.slot with
      | some f => some (s, { p with front := .purging job f, phase := .failed })
      | none =>
        if p.received = job.plan.total then
          some (s, { p with front := .completing job, phase := .finalizing })
        else
          let f := Failure.validation ("missing chunks: received " ++ toString p.received
            ++ ", expected " ++ toString job.plan.total)
          some (s, { p with front := .purging job f, phase := .failed })
    else none
  | .completing job =>
    match Store.complete s job.file p.tally with
    | .ok s =>
      some (s, { p with front := .finished (.ok ⟨job.file, p.tally⟩), phase := .complete })
    | .error f => some (s, { p with front := .purging job f, phase := .failed })
  | .purging job f =>
    match Store.purge s job.file with
    | .ok s => some (s, { p with front := .finished (.error f) })
    | .error _ => some (s, { p with front := .finished (.error f) })
  | .finished _ => none

/-- Seals a chunk with a nonce, if one could be drawn. -/
def sealPiece (key : Key) (iv : Option Nonce) (t : Piece) : Except Failure Sealed :=
  let tried := match iv with
    | some iv => key.sealWith iv.bytes t.data
    | none => .error (.encryption "failed to generate IV")
  tried.mapError fun f =>
    .encryption ("chunk " ++ toString t.index ++ " encryption failed: " ++ f.message)

def storePiece (key : Key) (file : Int) (iv : Option Nonce) (s : σ) (t : Piece) :
    Except Failure σ := do
  Store.save s file t.index (← sealPiece key iv t)

/-- The file that the chunks belong to. -/
def Front.file? : Front → Option Int
  | receiving job | enqueuing job _ | draining job _ | completing job | purging job _ =>
    some job.file
  | _ => none

def stepWorker (key : Key) (s : σ) (p : Pipeline) (n : Nat) (iv : Option Nonce) :
    Option (σ × Pipeline) :=
  match p.workers[n]? with
  | some (.busy (.taken t)) =>
    some (s, p.setWorker n (if p.aborted then .waiting else .busy (.storing t)))
  | some (.busy (.storing t)) =>
    match p.front.file? with
    | none => none
    | some file =>
      match storePiece key file iv s t with
      | .ok s => some (s, p.setWorker n (.busy (.reporting (.ok t.data.length))))
      | .error f => some (s, p.setWorker n (.busy (.reporting (.error f))))
  | some (.busy (.reporting o)) =>
    if p.results.length < queueDepth then
      some (s, { p with results := p.results ++ [o] }.setWorker n .waiting)
    else none
  | _ => (p.toCrew.stepIdle .taken n).map fun c => (s, { p with toCrew := c })

/-- What the accumulator does next: it adds a length, or keeps the first failure and stops the
upload, or leaves after the workers. -/
def stepAccumulator (p : Pipeline) : Option Pipeline :=
  match p.results with
  | .ok n :: rest =>
    some { p with results := rest, tally := if p.failed then p.tally else p.tally + n }
  | .error f :: rest =>
    if p.failed then some { p with results := rest }
    else
      some { p with results := rest, failed := true, aborted := true, slot := p.slot.or (some f) }
  | [] =>
    if p.closed && p.deserted && !p.drained then some { p with drained := true } else none

def step (key : Key) (owner : Int) (now : Moment) (m : Move) (s : σ) (p : Pipeline) :
    Option (σ × Pipeline) :=
  match m with
  | .front => stepFront owner now s p
  | .worker n iv => stepWorker key s p n iv
  | .accumulator => (stepAccumulator p).map (s, ·)

/-! ## A bound on the moves left -/

def Errand.weight : Errand → Nat
  | reporting _ => 4
  | storing _ => 5
  | taken _ => 6

/-- What is left for the front, where `crew` workers are to be. -/
def Front.weight (crew : Nat) : Front → Nat
  | finished _ => 0
  | purging .. => 1
  | completing _ => 2
  | draining .. => 3
  | receiving _ => 4
  | enqueuing .. => 11
  | creating _ => 5 + 2 * crew
  | opening => 6 + 2 * crew

/-- A bound on the moves left. -/
def Pipeline.weight (p : Pipeline) : Nat :=
  p.front.weight p.crew + 8 * p.inbound.length + p.toCrew.weight Errand.weight 6
    + p.results.length + (!p.drained).toNat

theorem weight_stepAccumulator {p q : Pipeline} (h : stepAccumulator p = some q) :
    q.weight < p.weight := by
  unfold stepAccumulator at h
  split at h
  · rename_i hr
    cases h
    simp [Pipeline.weight, hr]
  · rename_i hr
    split at h <;> cases h <;> simp [Pipeline.weight, hr]
  · split at h
    · rename_i hd
      cases h
      simp only [Bool.and_eq_true, Bool.not_eq_true'] at hd
      simp [Pipeline.weight, hd.2]
    · cases h

/-- A worker that moves gets lighter by as much as the pipeline, if nothing else changes. -/
theorem weight_setWorker {p : Pipeline} {n : Nat} {v w : Hand Errand}
    (hw : p.workers[n]? = some v) : (p.setWorker n w).weight + v.weight Errand.weight =
      p.weight + w.weight Errand.weight := by
  have := Crew.weight_setWorker Errand.weight 6 (w := w) hw
  simp only [Pipeline.weight, Pipeline.setWorker]
  omega

theorem weight_stepWorker {key : Key} {s s' : σ} {p q : Pipeline} {n : Nat} {iv : Option Nonce}
    (h : stepWorker key s p n iv = some (s', q)) : q.weight < p.weight := by
  unfold stepWorker at h
  split at h
  · rename_i t hw
    cases h
    split
    · have := weight_setWorker (w := .waiting) hw
      simp only [Hand.weight, Errand.weight] at this
      omega
    · have := weight_setWorker (w := .busy (.storing t)) hw
      simp only [Hand.weight, Errand.weight] at this
      omega
  · rename_i t hw
    split at h
    · cases h
    · split at h
      · cases h
        have := weight_setWorker (w := .busy (.reporting (.ok t.data.length))) hw
        simp only [Hand.weight, Errand.weight] at this
        omega
      · rename_i f _
        cases h
        have := weight_setWorker (w := .busy (.reporting (.error f))) hw
        simp only [Hand.weight, Errand.weight] at this
        omega
  · rename_i o hw
    split at h <;> cases h
    have := weight_setWorker (p := { p with results := p.results ++ [o] }) (w := .waiting) hw
    simp only [Hand.weight, Errand.weight] at this
    have grown : { p with results := p.results ++ [o] }.weight = p.weight + 1 := by
      simp only [Pipeline.weight, List.length_append, List.length_cons, List.length_nil]
      omega
    omega
  · obtain ⟨c, hc, heq⟩ := Option.map_eq_some_iff.1 h
    cases heq
    have := Crew.weight_stepIdle Errand.weight 6 (fun _ => Nat.le_refl _) hc
    simp only [Pipeline.weight]
    omega

theorem weight_close {p : Pipeline} {job : Job} (failure : Option Failure)
    (h : p.front = .receiving job) : (p.close job failure).weight + 1 = p.weight := by
  simp only [Pipeline.weight, Crew.weight, Pipeline.close, h, Front.weight]
  omega

theorem weight_stepFront {owner : Int} {now : Moment} {s s' : σ} {p q : Pipeline}
    (h : stepFront owner now s p = some (s', q)) : q.weight < p.weight := by
  unfold stepFront at h
  split at h
  · rename_i hf
    split at h <;> cases h <;> simp only [Pipeline.weight, hf, Front.weight, List.length_tail] <;>
      omega
  · rename_i o hf
    split at h <;> cases h
    · simp only [Pipeline.weight, Crew.weight, hf, Front.weight, sumOver_replicate, Hand.weight]
      omega
    · simp only [Pipeline.weight, hf, Front.weight]
      omega
  · rename_i job hf
    split at h
    · rename_i f hs
      cases h
      have := weight_close (p := { p with slot := none }) (some f) hf
      have same : { p with slot := none }.weight = p.weight := rfl
      omega
    · cases h
      have := weight_close none hf
      omega
    · rename_i item rest _ hi
      split at h
      · cases h
        simp only [Pipeline.weight, hf, hi, Front.weight, List.length_cons]
        omega
      · rename_i f _
        cases h
        have := weight_close (p := { p with inbound := rest }) (some f) hf
        have shrunk : { p with inbound := rest }.weight + 8 = p.weight := by
          simp only [Pipeline.weight, hi, List.length_cons]
          omega
        omega
  · rename_i job t hf
    split at h <;> cases h
    simp only [Pipeline.weight, Crew.weight, hf, Front.weight, List.length_append,
      List.length_cons, List.length_nil]
    omega
  · rename_i job failure hf
    split at h
    · split at h
      · cases h
        simp [Pipeline.weight, hf, Front.weight]
      · split at h <;> cases h <;> simp [Pipeline.weight, hf, Front.weight]
    · cases h
  · rename_i job hf
    split at h <;> cases h <;> simp only [Pipeline.weight, hf, Front.weight] <;> omega
  · rename_i job f hf
    split at h <;> cases h <;> simp only [Pipeline.weight, hf, Front.weight] <;> omega
  · cases h

/-- Every move lowers the weight, so there is no endless row of moves. -/
theorem weight_step {key : Key} {owner : Int} {now : Moment} {m : Move} {s s' : σ} {p q : Pipeline}
    (h : step key owner now m s p = some (s', q)) : q.weight < p.weight := by
  cases m with
  | front => exact weight_stepFront h
  | worker n iv => exact weight_stepWorker h
  | accumulator =>
    obtain ⟨r, hr, heq⟩ := Option.map_eq_some_iff.1 h
    cases heq
    exact weight_stepAccumulator hr

end Strongbox.Upload
