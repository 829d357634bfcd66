import Strongbox.Proofs.Crew
import Strongbox.Upload.Pipeline

/-!
# The moves of an upload

The moves of the parties of an upload one by one, one case for each place where a party may stand.
-/

namespace Strongbox.Upload

open Message

variable {σ : Type} [Store σ]

def miscounted (received total : Nat) : Failure :=
  .validation ("missing chunks: received " ++ toString received ++ ", expected " ++ toString total)

inductive FrontMove (owner : Int) (now : Moment) (s : σ) (p : Pipeline) : σ → Pipeline → Prop where
  | accept {o : Offer} (hf : p.front = .opening) (ho : offer p.inbound.head? = .ok o) :
      FrontMove owner now s p s { p with front := .creating o, inbound := p.inbound.tail }
  | refuse {f : Failure} (hf : p.front = .opening) (ho : offer p.inbound.head? = .error f) :
      FrontMove owner now s p s
        { p with front := .finished (.error f), phase := .failed, inbound := p.inbound.tail }
  | create {o : Offer} {file : Int} {t : σ} (hf : p.front = .creating o)
      (hs : Store.create s now owner o.draft = .ok (file, t)) :
      FrontMove owner now s p t { p with
        front := .receiving ⟨file, o.plan⟩, phase := .receivingChunks,
        workers := List.replicate p.crew .waiting }
  | miss {o : Offer} {f : Failure} (hf : p.front = .creating o)
      (hs : Store.create s now owner o.draft = .error f) :
      FrontMove owner now s p s { p with front := .finished (.error f), phase := .failed }
  | heed {job : Job} {f : Failure} (hf : p.front = .receiving job) (hs : p.slot = some f) :
      FrontMove owner now s p s ({ p with slot := none }.close job (some f))
  | rest {job : Job} (hf : p.front = .receiving job) (hs : p.slot = none) (hi : p.inbound = []) :
      FrontMove owner now s p s (p.close job none)
  | receive {job : Job} {item : Item} {others : List Item} {t : Piece}
      (hf : p.front = .receiving job) (hs : p.slot = none) (hi : p.inbound = item :: others)
      (ht : piece job.plan item = .ok t) :
      FrontMove owner now s p s { p with
        front := .enqueuing job t, inbound := others, received := p.received + 1 }
  | reject {job : Job} {item : Item} {others : List Item} {f : Failure}
      (hf : p.front = .receiving job) (hs : p.slot = none) (hi : p.inbound = item :: others)
      (ht : piece job.plan item = .error f) :
      FrontMove owner now s p s ({ p with inbound := others }.close job (some f))
  | enqueue {job : Job} {t : Piece} (hf : p.front = .enqueuing job t)
      (room : p.queue.length < queueDepth) :
      FrontMove owner now s p s { p with front := .receiving job, queue := p.queue ++ [t] }
  | doom {job : Job} {failure : Option Failure} {f : Failure}
      (hf : p.front = .draining job failure) (gone : p.deserted = true) (hd : p.drained = true)
      (hfail : failure.or p.slot = some f) :
      FrontMove owner now s p s { p with front := .purging job f, phase := .failed }
  | pass {job : Job} (hf : p.front = .draining job none) (gone : p.deserted = true)
      (hd : p.drained = true) (hs : p.slot = none) (hr : p.received = job.plan.total) :
      FrontMove owner now s p s { p with front := .completing job, phase := .finalizing }
  | lack {job : Job} (hf : p.front = .draining job none) (gone : p.deserted = true)
      (hd : p.drained = true) (hs : p.slot = none) (hr : p.received ≠ job.plan.total) :
      FrontMove owner now s p s { p with
        front := .purging job (miscounted p.received job.plan.total), phase := .failed }
  | complete {job : Job} {t : σ} (hf : p.front = .completing job)
      (hs : Store.complete s job.file p.tally = .ok t) :
      FrontMove owner now s p t
        { p with front := .finished (.ok ⟨job.file, p.tally⟩), phase := .complete }
  | spoil {job : Job} {f : Failure} (hf : p.front = .completing job)
      (hs : Store.complete s job.file p.tally = .error f) :
      FrontMove owner now s p s { p with front := .purging job f, phase := .failed }
  | purge {job : Job} {f : Failure} {t : σ} (hf : p.front = .purging job f)
      (hs : Store.purge s job.file = .ok t) :
      FrontMove owner now s p t { p with front := .finished (.error f) }
  | leave {job : Job} {f g : Failure} (hf : p.front = .purging job f)
      (hs : Store.purge s job.file = .error g) :
      FrontMove owner now s p s { p with front := .finished (.error f) }

inductive WorkerMove (key : Key) (n : Nat) (iv : Option Nonce) (s : σ) (p : Pipeline) :
    σ → Pipeline → Prop where
  | idle {c : Crew Piece Errand} (m : p.toCrew.IdleMove .taken n c) :
      WorkerMove key n iv s p s { p with toCrew := c }
  | drop {t : Piece} (hw : p.workers[n]? = some (.busy (.taken t))) (ha : p.aborted = true) :
      WorkerMove key n iv s p s (p.setWorker n .waiting)
  | begin {t : Piece} (hw : p.workers[n]? = some (.busy (.taken t))) (ha : p.aborted = false) :
      WorkerMove key n iv s p s (p.setWorker n (.busy (.storing t)))
  | store {t : Piece} {file : Int} {u : σ} (hw : p.workers[n]? = some (.busy (.storing t)))
      (hf : p.front.file? = some file) (hs : storePiece key file iv s t = .ok u) :
      WorkerMove key n iv s p u (p.setWorker n (.busy (.reporting (.ok t.data.length))))
  | fail {t : Piece} {file : Int} {f : Failure} (hw : p.workers[n]? = some (.busy (.storing t)))
      (hf : p.front.file? = some file) (hs : storePiece key file iv s t = .error f) :
      WorkerMove key n iv s p s (p.setWorker n (.busy (.reporting (.error f))))
  | report {o : Outcome} (hw : p.workers[n]? = some (.busy (.reporting o)))
      (room : p.results.length < queueDepth) :
      WorkerMove key n iv s p s ({ p with results := p.results ++ [o] }.setWorker n .waiting)

inductive AccumulatorMove (p : Pipeline) : Pipeline → Prop where
  | add {n : Nat} {others : List Outcome} (hr : p.results = .ok n :: others) :
      AccumulatorMove p
        { p with results := others, tally := if p.failed then p.tally else p.tally + n }
  | pass {f : Failure} {others : List Outcome} (hr : p.results = .error f :: others)
      (hf : p.failed = true) : AccumulatorMove p { p with results := others }
  | stop {f : Failure} {others : List Outcome} (hr : p.results = .error f :: others)
      (hf : p.failed = false) :
      AccumulatorMove p { p with
        results := others, failed := true, aborted := true, slot := p.slot.or (some f) }
  | leave (hr : p.results = []) (hc : p.closed = true) (gone : p.deserted = true)
      (hd : p.drained = false) : AccumulatorMove p { p with drained := true }

theorem stepFront_eq_some_iff {owner : Int} {now : Moment} {s t : σ} {p q : Pipeline} :
    stepFront owner now s p = some (t, q) ↔ FrontMove owner now s p t q := by
  constructor
  · intro h
    unfold stepFront at h
    split at h <;> rename_i hf
    · split at h <;> cases h
      · exact .accept hf ‹_›
      · exact .refuse hf ‹_›
    · split at h <;> cases h
      · exact .create hf ‹_›
      · exact .miss hf ‹_›
    · split at h
      · rename_i hs
        cases h
        exact .heed hf hs
      · rename_i hs hi
        cases h
        exact .rest hf hs hi
      · rename_i hs hi
        split at h <;> cases h
        · exact .receive hf hs hi ‹_›
        · exact .reject hf hs hi ‹_›
    · split at h <;> cases h
      exact .enqueue hf ‹_›
    · rename_i job failure
      split at h
      · rename_i gone
        rw [Bool.and_eq_true] at gone
        split at h
        · rename_i hfail
          cases h
          exact .doom hf gone.1 gone.2 hfail
        · rename_i hnone
          obtain ⟨rfl, hs⟩ := Option.or_eq_none_iff.1 hnone
          split at h <;> cases h
          · exact .pass hf gone.1 gone.2 hs ‹_›
          · exact .lack hf gone.1 gone.2 hs ‹_›
      · cases h
    · split at h <;> cases h
      · exact .complete hf ‹_›
      · exact .spoil hf ‹_›
    · split at h <;> cases h
      · exact .purge hf ‹_›
      · exact .leave hf ‹_›
    · cases h
  · intro h
    cases h with
    | accept hf ho | refuse hf ho => simp [stepFront, hf, ho]
    | create hf hs | miss hf hs | heed hf hs => simp [stepFront, hf, hs]
    | rest hf hs hi => simp [stepFront, hf, hs, hi]
    | receive hf hs hi ht | reject hf hs hi ht => simp [stepFront, hf, hs, hi, ht]
    | enqueue hf room => simp [stepFront, hf, room]
    | doom hf gone hd hfail => simp [stepFront, hf, gone, hd, hfail]
    | pass hf gone hd hs hr => simp [stepFront, hf, gone, hd, hs, hr]
    | lack hf gone hd hs hr => simp [stepFront, hf, gone, hd, hs, hr, miscounted]
    | complete hf hs | spoil hf hs | purge hf hs | leave hf hs => simp [stepFront, hf, hs]

theorem stepWorker_eq_some_iff {key : Key} {n : Nat} {iv : Option Nonce} {s t : σ}
    {p q : Pipeline} : stepWorker key s p n iv = some (t, q) ↔ WorkerMove key n iv s p t q := by
  constructor
  · intro h
    unfold stepWorker at h
    split at h
    · rename_i hw
      cases h
      split
      · exact .drop hw ‹_›
      · exact .begin hw (Bool.not_eq_true _ ▸ ‹_›)
    · rename_i hw
      split at h
      · cases h
      · rename_i hf
        split at h <;> cases h
        · exact .store hw hf ‹_›
        · exact .fail hw hf ‹_›
    · rename_i hw
      split at h <;> cases h
      exact .report hw ‹_›
    · obtain ⟨c, hc, heq⟩ := Option.map_eq_some_iff.1 h
      cases heq
      exact .idle (Crew.stepIdle_eq_some_iff.1 hc)
  · intro h
    cases h with
    | idle m =>
      have made := Crew.stepIdle_eq_some_iff.2 m
      cases m with
      | turn hw | take hw | leave hw => simp only [stepWorker, hw, made, Option.map_some]
    | drop hw ha | begin hw ha => simp [stepWorker, hw, ha]
    | store hw hf hs | fail hw hf hs => simp [stepWorker, hw, hf, hs]
    | report hw room => simp [stepWorker, hw, room]

theorem WorkerMove.present {key : Key} {n : Nat} {iv : Option Nonce} {s t : σ} {p q : Pipeline}
    (move : WorkerMove key n iv s p t q) : p.Present n := by
  cases move with
  | idle m => exact m.present
  | drop hw | begin hw | store hw | fail hw | report hw => exact ⟨_, hw, nofun⟩

theorem stepAccumulator_eq_some_iff {p q : Pipeline} :
    stepAccumulator p = some q ↔ AccumulatorMove p q := by
  constructor
  · intro h
    unfold stepAccumulator at h
    split at h <;> rename_i hr
    · cases h
      exact .add hr
    · split at h <;> rename_i hf <;> cases h
      · exact .pass hr hf
      · exact .stop hr (Bool.not_eq_true _ ▸ hf)
    · split at h <;> rename_i hc <;> cases h
      simp only [Bool.and_eq_true, Bool.not_eq_true'] at hc
      exact .leave hr hc.1.1 hc.1.2 hc.2
  · intro h
    cases h with
    | add hr => simp [stepAccumulator, hr]
    | pass hr hf | stop hr hf => simp [stepAccumulator, hr, hf]
    | leave hr hc gone hd => simp [stepAccumulator, hr, hc, gone, hd]

end Strongbox.Upload
