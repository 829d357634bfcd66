import Strongbox.Proofs.Sending

/-!
# What a sender puts into its stream
-/

namespace Strongbox.Sending

def Errand.index : Errand → Nat
  | taken i | sending i _ => i

def Producer.index? : Producer → Option Nat
  | enqueuing i => some i
  | _ => none

namespace Sender

/-- Indices under way are in the plan, frames are cut from the payload, and only a stream that is
closed makes a failure. -/
structure Faithful (s : Sender) : Prop where
  produced : ∀ i, s.producer.index? = some i → i < s.plan.total
  queued : ∀ i ∈ s.queue, i < s.plan.total
  held : ∀ e, .busy e ∈ s.workers → e.index < s.plan.total
  cut : ∀ i c, .busy (.sending i c) ∈ s.workers → cut? s.payload s.plan i = some c
  sent : ∀ c ∈ s.sent, ∃ i, cut? s.payload s.plan i = some c
  content : s.hungUp = false → s.failure = none

variable {s t : Sender}

theorem Faithful.start (payload : Bytes) (plan : Plan) (workers : Nat) :
    (Sender.start payload plan workers).Faithful where
  produced := nofun
  queued := nofun
  held e he := by
    cases List.eq_of_mem_replicate he
  cut i c hc := by
    cases List.eq_of_mem_replicate hc
  sent := nofun
  content _ := rfl

theorem Faithful.producer (faithful : s.Faithful) (m : ProducerMove s t) : t.Faithful := by
  cases m with
  | offer hp hi ha => exact { faithful with produced := fun i h => by cases h; exact hi }
  | close hp hi => exact { faithful with produced := nofun }
  | @put i hp room =>
    have hi := faithful.produced i (by rw [hp]; rfl)
    refine { faithful with produced := nofun, queued := fun j hj => ?_ }
    rcases List.mem_append.1 hj with old | new
    · exact faithful.queued j old
    · exact List.mem_singleton.1 new ▸ hi
  | finish hp gone => exact { faithful with produced := nofun }

/-- A worker elsewhere keeps the sender faithful, if what it has to do is in the plan. -/
theorem Faithful.moved {n : Nat} {w : Hand Errand} (faithful : s.Faithful)
    (held : ∀ e, w = .busy e → e.index < s.plan.total)
    (cut : ∀ i c, w = .busy (.sending i c) → cut? s.payload s.plan i = some c) :
    (s.setWorker n w).Faithful where
  produced := faithful.produced
  queued := faithful.queued
  held e he := by
    rcases List.mem_or_eq_of_mem_set he with old | new
    · exact faithful.held e old
    · exact held e new.symm
  cut i c hc := by
    rcases List.mem_or_eq_of_mem_set hc with old | new
    · exact faithful.cut i c old
    · exact cut i c new.symm
  sent := faithful.sent
  content := faithful.content

theorem Faithful.idle {n : Nat} {c : Crew Nat Errand} (faithful : s.Faithful)
    (m : s.toCrew.IdleMove .taken n c) : { s with toCrew := c }.Faithful where
  produced := faithful.produced
  queued i hi := faithful.queued i (m.queue_subset hi)
  held e he := by
    rcases m.busy he with old | ⟨i, hi, rfl⟩
    · exact faithful.held e old
    · exact faithful.queued i hi
  cut i c hc := by
    rcases m.busy hc with old | ⟨i, -, new⟩
    · exact faithful.cut _ c old
    · cases new
  sent := faithful.sent
  content := faithful.content

theorem Faithful.worker {n : Nat} (faithful : s.Faithful) (m : WorkerMove s n t) : t.Faithful := by
  cases m with
  | idle m => exact faithful.idle m
  | stop hw => exact faithful.moved nofun nofun
  | @cut i c hw ha hc =>
    have lt := faithful.held _ (List.mem_of_getElem? hw)
    exact faithful.moved (fun e he => by cases he; exact lt) (fun j d e => by cases e; exact hc)
  | @stray i hw ha hc =>
    obtain ⟨c, hcut⟩ := exists_cut s.payload (faithful.held _ (List.mem_of_getElem? hw))
    rw [show cut? s.payload s.plan i = some c from hcut] at hc
    cases hc
  | lose hw hh =>
    refine Faithful.moved (s := { s with aborted := true, failure := _ }) ?_ nofun nofun
    exact { faithful with content := fun h => by simp [hh] at h }
  | @send i c hw hh room =>
    refine Faithful.moved (s := { s with sent := s.sent ++ [c], unread := s.unread + 1 }) ?_
      nofun nofun
    refine { faithful with sent := fun d hd => ?_ }
    rcases List.mem_append.1 hd with old | new
    · exact faithful.sent d old
    · cases List.mem_singleton.1 new
      exact ⟨i, faithful.cut i c (List.mem_of_getElem? hw)⟩

theorem Faithful.step {m : Move} (faithful : s.Faithful) (h : Sending.step m s = some t) :
    t.Faithful := by
  cases m with
  | producer => exact faithful.producer (stepProducer_eq_some_iff.1 h)
  | worker n => exact faithful.worker (stepWorker_eq_some_iff.1 h)
  | reader =>
    simp only [Sending.step] at h
    split at h <;> cases h
    exact { faithful with }
  | hangUp =>
    simp only [Sending.step] at h
    split at h <;> cases h
    exact { faithful with content := fun h => by cases h }

end Sender

end Strongbox.Sending
