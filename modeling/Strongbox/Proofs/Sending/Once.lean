import Mathlib.Data.List.Sort
import Strongbox.Proofs.Sending.Frames
import Strongbox.Proofs.Sending.Payload
import Strongbox.Proofs.Sending.Stall

/-!
# A sender sends each chunk once

Every index that the producer hands out is in one place: its frame has been accepted, or it waits in
the queue, or a worker has it, or it has been given up. Indices are given up only by a sender that
has a failure to report, so a sender that ends well has sent them all.

## Main definitions

* `Sending.numberOf`: the index that a frame carries.
* `Sending.Sender.pending`: the indices under way.
* `Sending.Sender.Tracked`: each index is in one place.
* `Sending.Carries`: a frame carries a chunk of a plan.

## Main statements

* `Sending.Sender.Tracked.step`: every move keeps each index in one place.
* `Sending.sends_each_once`: which frames a sender has sent, and when it ends well.
-/

namespace Strongbox.Sending

open Message

/-- The index that a frame carries. It is sent as a signed word, and read here without its sign. -/
def numberOf (c : Message.Chunk) : Nat := c.index.toUInt32.toNat

theorem numberOf_of_cut {payload : Bytes} {plan : Plan} {i : Nat} {c : Message.Chunk}
    (h : cut? payload plan i = some c) : numberOf c = i := by
  obtain ⟨lt, rfl⟩ := cut?_eq_some_iff.1 h
  exact Word.toNat_toUInt32_ofNat (Nat.lt_trans lt plan.total_lt)

def Errand.inHand (e : Errand) : List Nat := [e.index]

/-- How many indices the producer has done with: it has handed them out, or will hand out no
more. -/
def Producer.done (total : Nat) : Producer → Nat
  | checking i | enqueuing i => i
  | draining | finished => total

namespace Sender

def pending (s : Sender) : List Nat := s.toCrew.pending Errand.inHand

/-- Each index that the producer has done with is in one place: sent, under way, or given up. -/
structure Tracked (s : Sender) (lost : List Nat) : Prop where
  accounted : (s.sent.map numberOf ++ s.pending ++ lost).Perm
    (List.range (s.producer.done s.plan.total))
  /-- Indices are given up by a sender that has stopped, and by no other. -/
  lost_iff : lost ≠ [] ↔ s.aborted = true
  failed_iff : s.failure ≠ none ↔ s.aborted = true
  /-- No worker leaves before the end of the queue without being stopped. -/
  left : s.aborted = false → s.Loyal
  deserted : s.producer = .finished → ∀ w ∈ s.workers, w = .exited

variable {s t : Sender} {lost : List Nat}

theorem Tracked.start (payload : Bytes) (plan : Plan) (workers depth unread : Nat) :
    Tracked { Sender.start payload plan workers with depth := depth, unread := unread } [] where
  accounted := by
    have idle : (Sender.start payload plan workers).inHand Errand.inHand = [] :=
      Crew.inHand_of_waiting fun _ => List.eq_of_mem_replicate
    exact .of_eq (List.append_nil _ |>.trans idle)
  lost_iff := by simp [Sender.start]
  failed_iff := by simp [Sender.start]
  left _ := Crew.Loyal.of_waiting fun _ => List.eq_of_mem_replicate
  deserted := nofun

/-! ## What a move preserves -/

theorem Tracked.producer (tracked : s.Tracked lost) (paced : s.Paced) (m : ProducerMove s t) :
    ∃ lost, t.Tracked lost := by
  have accounted := tracked.accounted
  cases m with
  | offer hp hi ha =>
    rw [hp] at accounted
    refine ⟨lost, { tracked with accounted := accounted, deserted := fun finished => ?_ }⟩
    cases finished
  | @close i hp hi =>
    simp only [Paced, hp] at paced
    simp only [hp, Producer.done] at accounted
    -- The indices that were not handed out are given up. There are some for a stopped sender only.
    refine ⟨lost ++ List.range' i (s.plan.total - i), { tracked with
      accounted := ?_, lost_iff := ?_, left := fun running => (tracked.left running).close,
      deserted := fun finished => ?_ }⟩
    · have rest := List.range'_append_1 (s := 0) (m := i) (n := s.plan.total - i)
      rw [Nat.zero_add, Nat.add_sub_cancel' paced.2.1, ← List.range_eq_range',
        ← List.range_eq_range'] at rest
      show (s.sent.map numberOf ++ s.pending ++ (lost ++ _)).Perm (List.range s.plan.total)
      rw [← List.append_assoc, ← rest]
      exact accounted.append_right _
    · have given_up := tracked.lost_iff
      cases ha : s.aborted with
      | true => simp [given_up.2 ha]
      | false =>
        have all : s.plan.total - i = 0 := by
          simp only [ha, and_true] at hi
          omega
        simpa [all, ha] using given_up
    · cases finished
  | @put i hp room =>
    simp only [Paced, hp] at paced
    simp only [hp, Producer.done] at accounted
    refine ⟨lost, { tracked with
      accounted := ?_, left := fun running => (tracked.left running).put paced.1 i,
      deserted := fun finished => ?_ }⟩
    · have moved := ((Crew.pending_put Errand.inHand s.toCrew i).append_left
        (s.sent.map numberOf)).append_right lost
      refine moved.trans ?_
      simp only [Producer.done, List.range_succ]
      refine .trans ?_ (accounted.append_right [i])
      simp only [List.append_assoc]
      exact (List.perm_append_comm.append_left _).append_left _
    · cases finished
  | finish hp gone =>
    rw [hp] at accounted
    exact ⟨lost, { tracked with
      accounted := accounted, deserted := fun _ => Crew.deserted_iff.1 gone }⟩

theorem Tracked.idle {n : Nat} {c : Crew Nat Errand} (tracked : s.Tracked lost)
    (m : s.toCrew.IdleMove .taken n c) : { s with toCrew := c }.Tracked lost where
  accounted := by
    have same := m.pending_perm (f := Errand.inHand) fun _ => rfl
    exact ((same.append_left _).append_right _).trans tracked.accounted
  lost_iff := tracked.lost_iff
  failed_iff := tracked.failed_iff
  left running := (tracked.left running).idle m
  deserted finished := by
    exact absurd (tracked.deserted finished) m.present.not_gone

/-- A worker done with an errand, with the indices accounted for, keeps each index in one place. -/
theorem Tracked.moved {n : Nat} {e : Errand} {w : Hand Errand} {lost' : List Nat}
    (tracked : s.Tracked lost) (hw : s.workers[n]? = some (.busy e))
    (crew_eq : t.toCrew = s.toCrew.setWorker n w) (producer_eq : t.producer = s.producer)
    (plan_eq : t.plan = s.plan)
    (accounted : (t.sent.map numberOf ++ w.inHand Errand.inHand ++ lost').Perm
      (s.sent.map numberOf ++ [e.index] ++ lost))
    (lost_iff : lost' ≠ [] ↔ t.aborted = true) (failed_iff : t.failure ≠ none ↔ t.aborted = true)
    (stays : t.aborted = false → s.aborted = false ∧ w ≠ .exited) : t.Tracked lost' where
  accounted := by
    apply perm_iff_sumOver.2
    intro measure
    have before := perm_iff_sumOver.1 tracked.accounted measure
    have here := perm_iff_sumOver.1 accounted measure
    have there := Crew.sumOver_setWorker (f := Errand.inHand) (w := w) measure hw
    simp only [pending, Crew.pending, Crew.queue_setWorker, Hand.inHand, Errand.inHand,
      sumOver_append, crew_eq, producer_eq, plan_eq] at *
    omega
  lost_iff := lost_iff
  failed_iff := failed_iff
  left running := by
    obtain ⟨before, present⟩ := stays running
    rw [crew_eq]
    exact (tracked.left before).setWorker present
  deserted finished := by
    rw [producer_eq] at finished
    cases tracked.deserted finished _ (List.mem_of_getElem? hw)

/-- A worker that gives up its index leaves, and the sender has stopped. -/
theorem Tracked.given_up {n : Nat} {e : Errand} (tracked : s.Tracked lost)
    (hw : s.workers[n]? = some (.busy e)) (crew_eq : t.toCrew = s.toCrew.setWorker n .exited)
    (producer_eq : t.producer = s.producer) (plan_eq : t.plan = s.plan) (sent_eq : t.sent = s.sent)
    (stopped : t.aborted = true) (failed : t.failure ≠ none) : t.Tracked (e.index :: lost) := by
  refine tracked.moved hw crew_eq producer_eq plan_eq ?_ (by simp [stopped])
    (by simp [stopped, failed]) fun running => ?_
  · rw [sent_eq, List.append_assoc, List.append_assoc]
    exact .refl _
  · rw [stopped] at running
    cases running

theorem Tracked.worker {n : Nat} (tracked : s.Tracked lost) (faithful : s.Faithful)
    (m : WorkerMove s n t) : ∃ lost, t.Tracked lost := by
  cases m with
  | idle m => exact ⟨lost, tracked.idle m⟩
  | stop hw ha =>
    exact ⟨_, tracked.given_up hw rfl rfl rfl rfl ha (tracked.failed_iff.2 ha)⟩
  | cut hw ha hc =>
    exact ⟨lost, tracked.moved hw rfl rfl rfl (.refl _) tracked.lost_iff tracked.failed_iff
      fun running => ⟨running, by simp⟩⟩
  | stray hw | lose hw =>
    refine ⟨_, tracked.given_up hw rfl rfl rfl rfl rfl ?_⟩
    cases hf : s.failure <;> simp [fail, setWorker, hf]
  | @send i c hw hh room =>
    have number := numberOf_of_cut (faithful.cut i c (List.mem_of_getElem? hw))
    refine ⟨lost, tracked.moved hw rfl rfl rfl ?_ tracked.lost_iff tracked.failed_iff
      fun running => ⟨running, by simp⟩⟩
    simp only [setWorker, Hand.inHand, Errand.index, List.map_append, List.map_cons, List.map_nil,
      number, List.append_nil]
    exact .refl _

theorem Tracked.step {m : Move} (tracked : s.Tracked lost) (paced : s.Paced)
    (faithful : s.Faithful) (h : Sending.step m s = some t) : ∃ lost, t.Tracked lost := by
  cases m with
  | producer => exact tracked.producer paced (stepProducer_eq_some_iff.1 h)
  | worker n => exact tracked.worker faithful (stepWorker_eq_some_iff.1 h)
  | reader | hangUp =>
    simp only [Sending.step] at h
    split at h <;> cases h
    exact ⟨lost, { tracked with }⟩

theorem Tracked.reaches (tracked : s.Tracked lost) (paced : s.Paced) (faithful : s.Faithful)
    (h : Reaches s t) : t.Faithful ∧ ∃ lost, t.Tracked lost := by
  suffices t.Faithful ∧ t.Paced ∧ ∃ lost, t.Tracked lost from ⟨this.1, this.2.2⟩
  induction h with
  | refl => exact ⟨faithful, paced, lost, tracked⟩
  | next m _ hm ih =>
    obtain ⟨faithful, paced, lost, tracked⟩ := ih
    exact ⟨faithful.step hm, paced.step hm, tracked.step paced faithful hm⟩

/-! ## What has been sent -/

theorem finished_of_verdict {answer : Except Failure Unit} (h : s.verdict? = some answer) :
    s.producer = .finished ∧ (answer = .ok () ↔ s.failure = none) := by
  unfold verdict? at h
  split at h
  · rename_i finished
    cases hf : s.failure <;> rw [hf] at h <;> cases h <;> simp [finished]
  · cases h

theorem Tracked.nodup_sent (tracked : s.Tracked lost) : (s.sent.map numberOf).Nodup := by
  have nodup := tracked.accounted.nodup_iff.2 List.nodup_range
  exact (List.nodup_append.1 (List.nodup_append.1 nodup).1).1

/-- A sender that has an answer ends well just if the frames of all indices have been accepted. -/
theorem Tracked.ok_iff (tracked : s.Tracked lost) (crew : 0 < s.workers.length)
    {answer : Except Failure Unit} (h : s.verdict? = some answer) :
    answer = .ok () ↔ (s.sent.map numberOf).Perm (List.range s.plan.total) := by
  obtain ⟨finished, ends_well⟩ := finished_of_verdict h
  have gone := tracked.deserted finished
  have accounted := tracked.accounted
  rw [finished, pending, Crew.pending, Crew.inHand_of_gone gone, List.append_nil] at accounted
  rw [ends_well]
  have given_up : lost = [] ↔ s.failure = none := by
    rw [← not_iff_not, ← ne_eq, tracked.lost_iff, ← tracked.failed_iff]
  constructor
  · intro content
    have kept := given_up.2 content
    have running : s.aborted = false := by
      rw [← Bool.not_eq_true, ← tracked.failed_iff]
      exact not_not_intro content
    have empty := (tracked.left running).queue_eq_nil (List.ne_nil_of_length_pos crew) gone
    rw [kept, empty, List.append_nil, List.append_nil] at accounted
    exact accounted
  · intro all
    have length_eq := accounted.length_eq
    rw [List.length_append, List.length_append, all.length_eq] at length_eq
    simp only [Producer.done, List.length_range] at length_eq
    exact given_up.1 (List.length_eq_zero_iff.1 (by omega))

end Sender

/-- Frames of a payload, one for each index, hold the payload when put in order. -/
theorem flatMap_data_sorted {payload : Bytes} {plan : Plan} {frames : List Message.Chunk}
    (size_eq : plan.size = payload.length)
    (cut : ∀ c ∈ frames, ∃ i, cut? payload plan i = some c)
    (perm : (frames.map numberOf).Perm (List.range plan.total)) :
    (frames.mergeSort fun c d => numberOf c ≤ numberOf d).flatMap (·.data) = payload := by
  let sorted := frames.mergeSort fun c d => numberOf c ≤ numberOf d
  have same : sorted.Perm frames := List.mergeSort_perm ..
  have ascending : (sorted.map numberOf).Pairwise (· ≤ ·) := by
    refine List.pairwise_map.2 ((List.pairwise_mergeSort ?_ ?_ frames).imp of_decide_eq_true)
    · simp only [decide_eq_true_eq]
      omega
    · simp only [Bool.or_eq_true, decide_eq_true_eq]
      omega
  have numbers : sorted.map numberOf = List.range plan.total :=
    ((same.map numberOf).trans perm).eq_of_pairwise' ascending List.pairwise_le_range
  have data : sorted.flatMap (·.data) = (sorted.map numberOf).flatMap (plan.slice payload) := by
    rw [List.flatMap_map]
    refine List.flatMap_congr fun c hc => ?_
    obtain ⟨i, hi⟩ := cut c (same.mem_iff.1 hc)
    rw [numberOf_of_cut hi]
    obtain ⟨-, rfl⟩ := cut?_eq_some_iff.1 hi
    rfl
  rw [show (frames.mergeSort _) = sorted from rfl, data, numbers, plan.flatMap_slice size_eq]

/-- The frame carries a chunk of the plan: its bytes, cut from within the payload, and whether it is
the last. -/
structure Carries (payload : Bytes) (plan : Plan) (c : Message.Chunk) : Prop where
  lt_total : numberOf c < plan.total
  index_eq : c.index = Int32.ofNat (numberOf c)
  data_eq : ∃ sp, plan.span? (numberOf c) = some sp ∧ sp.stop ≤ payload.length ∧
    c.data = (payload.drop sp.start).take sp.length
  isLast_iff : c.isLast = true ↔ numberOf c + 1 = plan.total

theorem carries_of_cut {payload : Bytes} {plan : Plan} {i : Nat} {c : Message.Chunk}
    (size_eq : plan.size = payload.length) (h : cut? payload plan i = some c) :
    Carries payload plan c := by
  have number := numberOf_of_cut h
  have lt := (cut?_eq_some_iff.1 h).1
  have span := Plan.span?_of_lt lt
  rw [cut?, span, Option.map_some, Option.some.injEq] at h
  exact {
    lt_total := by rwa [number]
    index_eq := by rw [number, ← h]
    data_eq := by
      rw [number, ← h]
      exact ⟨_, span, size_eq ▸ Nat.min_le_right .., rfl⟩
    isLast_iff := by
      rw [number, ← h]
      exact Plan.isLast_iff }

/-- Whatever the parties of a sender do in whatever order, and whenever the reader leaves, the
frames that the stream has accepted carry chunks of the plan, none twice. A sender that has an
answer ends well just if it has sent all of them, and then they hold the payload when put in
order. -/
theorem sends_each_once {payload : Bytes} {plan : Plan} {chunkSize : Nat}
    (planned : Plan.make payload.length chunkSize = .ok plan) (workers depth unread : Nat)
    {s : Sender} (reaches : Reaches
      { Sender.start payload plan workers with depth := depth, unread := unread } s) :
    (s.sent.map numberOf).Nodup ∧ (∀ c ∈ s.sent, Carries payload plan c) ∧
      ∀ answer, s.verdict? = some answer →
        (answer = .ok () ↔ (s.sent.map numberOf).Perm (List.range plan.total)) ∧
        (answer = .ok () →
          (s.sent.mergeSort fun c d => numberOf c ≤ numberOf d).flatMap (·.data) = payload) := by
  obtain ⟨payload_eq, plan_eq, crew_eq⟩ := reaches.const
  have started := Sender.Tracked.start payload plan workers depth unread
  obtain ⟨faithful, lost, tracked⟩ := started.reaches (Sender.Paced.start payload plan workers)
    { Sender.Faithful.start payload plan workers with } reaches
  have size_eq : plan.size = payload.length := (Plan.make_eq_ok_iff.1 planned).1
  have cut : ∀ c ∈ s.sent, ∃ i, cut? payload plan i = some c := by
    intro c hc
    have := faithful.sent c hc
    rwa [payload_eq, plan_eq] at this
  refine ⟨tracked.nodup_sent, fun c hc => ?_, fun answer answers => ?_⟩
  · obtain ⟨i, hi⟩ := cut c hc
    exact carries_of_cut size_eq hi
  · have crew : 0 < s.workers.length := by
      rw [crew_eq]
      simp only [Sender.start, List.length_replicate]
      omega
    have ok_iff := tracked.ok_iff crew answers
    rw [plan_eq] at ok_iff
    exact ⟨ok_iff, fun ok => flatMap_data_sorted size_eq cut (ok_iff.1 ok)⟩

/-- Of two workers the second is quicker, so the last byte is sent before the first. -/
theorem sends_each_once_of_two_bytes :
    let plan : Plan := ⟨2, 1, by decide, by decide⟩
    Plan.make 2 1 = .ok plan ∧ ∃ s, Reaches
      { Sender.start [7, 9] plan 2 with depth := 4, unread := 0 } s ∧
      s.verdict? = some (.ok ()) ∧ s.sent.map numberOf = [1, 0] ∧
      (s.sent.mergeSort fun c d => numberOf c ≤ numberOf d).flatMap (·.data) = [7, 9] := by
  intro plan
  have planned : Plan.make [7, 9].length 1 = .ok plan := Plan.make_eq_ok_iff.2 ⟨rfl, rfl⟩
  let moves : List Move := List.replicate 5 .producer ++ List.replicate 3 (.worker 0)
    ++ List.replicate 6 (.worker 1) ++ List.replicate 3 (.worker 0) ++ [.producer]
  have course : ((moves.foldlM (fun s m => step m s)
      { Sender.start [7, 9] plan 2 with depth := 4, unread := 0 }).map fun s =>
        (s.producer, s.failure.isNone, s.sent.map numberOf)) = some (.finished, true, [1, 0]) := by
    decide +kernel
  obtain ⟨s, moved, reached⟩ := Option.map_eq_some_iff.1 course
  simp only [Prod.mk.injEq] at reached
  obtain ⟨finished, content, numbers⟩ := reached
  have reaches := Reaches.of_foldlM moved
  have answers : s.verdict? = some (.ok ()) := by
    rw [Sender.verdict?, finished, Option.isNone_iff_eq_none.1 content]
  have sends := sends_each_once planned 2 4 0 reaches
  exact ⟨planned, s, reaches, answers, numbers, (sends.2.2 _ answers).2 rfl⟩

end Strongbox.Sending
