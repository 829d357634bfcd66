import Strongbox.Proofs.Sending

/-!
# When a sender gets stuck

The producer waits for room in a queue that only the workers empty, and the queue outlives them. If
the reader leaves, every worker may leave with the frame in its hand while the producer still has
indices to put away. Each worker can keep one index and the queue `queueDepth`, so this happens
exactly to the plans with more chunks than that.

## Main definitions

* `Sending.kept`: the indices a worker keeps from the queue.
* `Sending.Sender.Paced`: what the producer has handed out is with the workers or in the queue.
* `Sending.Sender.Manned`, `Sending.Sender.Filled`, `Sending.Sender.Jammed`: the three parts of the
  way to a stuck sender.

## Main statements

* `Sending.moves_until_done_iff`: a sender can always move, unless its plan is too long.
-/

namespace Strongbox.Sending

/-- How many indices a worker has taken without having its frame accepted. One that has left before
the queue was closed has left with an index. -/
def kept : Hand Errand → Nat
  | .busy _ | .exited => 1
  | .waiting | .holding => 0

namespace Sender

/-- While the producer is at work, the indices in the queue and with the workers are among those it
has handed out. -/
def Paced (s : Sender) : Prop :=
  match s.producer with
  | .checking i =>
    s.closed = false ∧ i ≤ s.plan.total ∧ s.queue.length + sumOver kept s.workers ≤ i
  | .enqueuing i =>
    s.closed = false ∧ i < s.plan.total ∧ s.queue.length + sumOver kept s.workers ≤ i
  | .draining | .finished => s.closed = true

variable {s t : Sender}

/-! ## What a move preserves -/

theorem Paced.producer (h : s.Paced) (hm : ProducerMove s t) : t.Paced := by
  cases hm with
  | offer hp hi ha =>
    simp only [Paced, hp] at h ⊢
    exact ⟨h.1, hi, h.2.2⟩
  | close hp hi => rfl
  | put hp room =>
    simp only [Paced, hp, List.length_append, List.length_singleton] at h ⊢
    exact ⟨h.1, h.2.1, by omega⟩
  | finish hp gone =>
    simp only [Paced, hp] at h ⊢
    exact h

/-- A sender that differs in its queue and its workers keeps pace if these hold no more. -/
theorem Paced.of_le (h : s.Paced) (hp : t.producer = s.producer) (hplan : t.plan = s.plan)
    (hc : t.closed = s.closed)
    (hle : s.closed = false →
      t.queue.length + sumOver kept t.workers ≤
        s.queue.length + sumOver kept s.workers) : t.Paced := by
  unfold Paced at h ⊢
  rw [hp, hplan, hc]
  cases hs : s.producer <;> simp only [hs] at h ⊢
  · exact ⟨h.1, h.2.1, Nat.le_trans (hle h.1) h.2.2⟩
  · exact ⟨h.1, h.2.1, Nat.le_trans (hle h.1) h.2.2⟩
  · exact h
  · exact h

theorem Paced.worker {n : Nat} (h : s.Paced) (hm : WorkerMove s n t) : t.Paced := by
  refine h.of_le ?_ ?_ ?_ fun hopen => ?_
  · cases hm <;> rfl
  · cases hm <;> rfl
  · cases hm with
    | idle m => exact m.closed_eq
    | stop | cut | stray | lose | send => rfl
  · cases hm with
    | stop hw | cut hw | stray hw | lose hw | send hw =>
      exact Nat.add_le_add_left (sumOver_set_le kept hw (by simp [kept])) _
    | idle m =>
      cases m with
      | turn hw => exact Nat.add_le_add_left (sumOver_set_le kept hw (by simp [kept])) _
      | @take i _ hw hq =>
        have := sumOver_set kept (.busy (.taken i)) hw
        simp only [Crew.setWorker, hq, List.length_cons, kept] at this ⊢
        omega
      | leave hw hq hc => simp [hc] at hopen

theorem Paced.reader {m : Move} (h : s.Paced) (hm : step m s = some t)
    (hr : m = .reader ∨ m = .hangUp) : t.Paced := by
  rcases hr with rfl | rfl <;> simp only [step] at hm <;> split at hm <;> cases hm <;> exact h

theorem Paced.step {m : Move} (h : s.Paced) (hm : Sending.step m s = some t) : t.Paced := by
  cases m with
  | producer => exact h.producer (stepProducer_eq_some_iff.1 hm)
  | worker n => exact h.worker (stepWorker_eq_some_iff.1 hm)
  | reader => exact h.reader hm (.inl rfl)
  | hangUp => exact h.reader hm (.inr rfl)

theorem Paced.start (payload : Bytes) (plan : Plan) (workers : Nat) :
    (start payload plan workers).Paced := by
  refine ⟨rfl, Nat.zero_le _, ?_⟩
  simp [Sender.start, sumOver_replicate, kept]

theorem Paced.reaches (h : s.Paced) (hr : Reaches s t) : t.Paced := by
  induction hr with
  | refl => exact h
  | next m _ hm ih => exact ih.step hm

/-! ## A sender that cannot move -/

/-- Workers that cannot move, though an index waits for them or none will come, have all left. -/
theorem Idle.deserted (h : s.Idle) (hr : s.Responsive) (hq : s.queue ≠ [] ∨ s.closed = true) :
    s.deserted = true := by
  rw [← Bool.not_eq_false]
  intro manned
  have present := Crew.deserted_eq_false_iff.1 manned
  rcases Crew.busy_or_idle .taken present hq with ⟨n, e, hn⟩ | ⟨n, c, m⟩
  · cases e with
    | taken i =>
      cases ha : s.aborted with
      | true => exact h.worker n _ (.stop hn ha)
      | false =>
        cases hc : cut? s.payload s.plan i with
        | none => exact h.worker n _ (.stray hn ha hc)
        | some c => exact h.worker n _ (.cut hn ha hc)
    | sending i c =>
      cases hh : s.hungUp with
      | true => exact h.worker n _ (.lose hn hh)
      | false =>
        rcases hr with hr | hroom
        · rw [hh] at hr
          cases hr
        · exact h.worker n _ (.send hn hh hroom)
  · exact h.worker n _ (.idle m)

theorem kept_eq_length (gone : ∀ w ∈ s.workers, w = .exited) :
    sumOver kept s.workers = s.workers.length := by
  rw [List.eq_replicate_of_mem gone, sumOver_replicate, List.length_replicate]
  exact Nat.mul_one _

/-- A sender that cannot move, though it has no answer and the stream would take a frame, has a
full queue and no workers. -/
theorem Idle.total_gt (h : s.Idle) (hr : s.Responsive) (hv : s.verdict? = none) (hp : s.Paced) :
    s.workers.length + queueDepth < s.plan.total := by
  cases hs : s.producer with
  | checking i =>
    by_cases hi : i < s.plan.total ∧ s.aborted = false
    · exact absurd (.offer hs hi.1 hi.2) (h.producer _)
    · exact absurd (.close hs hi) (h.producer _)
  | enqueuing i =>
    have full : queueDepth ≤ s.queue.length :=
      Nat.le_of_not_lt fun room => h.producer _ (.put hs room)
    have hq : s.queue ≠ [] := by
      rintro hq
      simp [hq, queueDepth] at full
    have := kept_eq_length (Crew.deserted_iff.1 (h.deserted hr (.inl hq)))
    simp only [Paced, hs] at hp
    omega
  | draining =>
    simp only [Paced, hs] at hp
    exact absurd (.finish hs (h.deserted hr (.inr hp))) (h.producer _)
  | finished => simp [verdict?, hs] at hv

/-! ## The way to a stuck sender -/

/-- The reader has left, and the first `k` workers have a frame in hand; the others have not had a
turn yet. -/
structure Manned (plan : Plan) (crew k : Nat) (s : Sender) : Prop where
  plan_eq : s.plan = plan
  crew_eq : s.workers.length = crew
  hungUp : s.hungUp = true
  running : s.aborted = false
  producer : s.producer = .checking k
  queue : s.queue = []
  ahead : ∀ n < k, ∃ i c, s.workers[n]? = some (.busy (.sending i c))
  behind : ∀ n, k ≤ n → n < crew → s.workers[n]? = some .waiting

/-- All workers have a frame in hand, and `k` indices wait for them. -/
structure Filled (plan : Plan) (crew k : Nat) (s : Sender) : Prop where
  plan_eq : s.plan = plan
  crew_eq : s.workers.length = crew
  hungUp : s.hungUp = true
  running : s.aborted = false
  producer : s.producer = .checking (crew + k)
  queue : s.queue.length = k
  busy : ∀ n < crew, ∃ i c, s.workers[n]? = some (.busy (.sending i c))

/-- The producer waits at a full queue; the first `k` workers have left, the others have a frame in
hand. -/
structure Jammed (crew k : Nat) (s : Sender) : Prop where
  crew_eq : s.workers.length = crew
  hungUp : s.hungUp = true
  producer : ∃ i, s.producer = .enqueuing i
  queue : s.queue.length = queueDepth
  gone : ∀ n < k, s.workers[n]? = some .exited
  busy : ∀ n, k ≤ n → n < crew → ∃ i c, s.workers[n]? = some (.busy (.sending i c))

variable {plan : Plan} {crew k : Nat}

theorem Manned.next (h : s.Manned plan crew k) (hk : k < crew) (ht : k < plan.total) :
    ∃ t, Reaches s t ∧ t.Manned plan crew (k + 1) := by
  have nobody : s.turnFree = true := by
    apply Crew.turnFree_iff.2
    intro hold
    obtain ⟨n, hn⟩ := List.mem_iff_getElem?.1 hold
    by_cases hnk : n < k
    · obtain ⟨i, c, hw⟩ := h.ahead n hnk
      simp [hw] at hn
    · by_cases hnc : n < crew
      · simp [h.behind n (by omega) hnc] at hn
      · rw [List.getElem?_eq_none (by rw [h.crew_eq]; omega)] at hn
        cases hn
  have room : s.queue.length < queueDepth := by simp [h.queue, queueDepth]
  obtain ⟨c, hc⟩ := exists_cut s.payload (h.plan_eq ▸ ht : k < s.plan.total)
  have hw : s.workers[k]? = some .waiting := h.behind k (Nat.le_refl _) hk
  have hlen : k < s.workers.length := h.crew_eq ▸ hk
  -- The producer hands out index `k`, and worker `k` takes its turn and the index.
  have r₁ := (Reaches.refl (s := s)).producer (.offer h.producer (h.plan_eq ▸ ht) h.running)
  have r₂ := r₁.producer (.put rfl room)
  have r₃ := r₂.worker (n := k) (.idle (.turn hw nobody))
  have r₄ := r₃.worker (n := k)
    (.idle (.take (List.getElem?_set_self hlen) (by rw [Crew.queue_setWorker, h.queue]; rfl)))
  have r₅ := r₄.worker (n := k) (.cut (List.getElem?_set_self (by simpa using hlen)) h.running hc)
  refine ⟨_, r₅, h.plan_eq, by simp [h.crew_eq], h.hungUp, h.running, rfl, rfl, fun n hn => ?_,
    fun n hn hnc => ?_⟩
  · simp only [workers_setWorker, Crew.workers_setWorker, List.set_set]
    by_cases hnk : n = k
    · subst hnk
      exact ⟨n, c, List.getElem?_set_self hlen⟩
    · rw [List.getElem?_set_ne (Ne.symm hnk)]
      exact h.ahead n (by omega)
  · simp only [workers_setWorker, Crew.workers_setWorker, List.set_set]
    rw [List.getElem?_set_ne (by omega)]
    exact h.behind n (by omega) hnc

theorem Filled.next (h : s.Filled plan crew k) (hk : k < queueDepth)
    (ht : crew + k < plan.total) : ∃ t, Reaches s t ∧ t.Filled plan crew (k + 1) := by
  have r₁ := (Reaches.refl (s := s)).producer (.offer h.producer (h.plan_eq ▸ ht) h.running)
  have r₂ := r₁.producer (.put rfl (h.queue ▸ hk))
  exact ⟨_, r₂, h.plan_eq, h.crew_eq, h.hungUp, h.running, rfl, by simp [h.queue], h.busy⟩

theorem Jammed.next (h : s.Jammed crew k) (hk : k < crew) :
    ∃ t, Reaches s t ∧ t.Jammed crew (k + 1) := by
  obtain ⟨i, c, hw⟩ := h.busy k (Nat.le_refl _) hk
  have hlen : k < s.workers.length := h.crew_eq ▸ hk
  refine ⟨_, Reaches.refl.worker (.lose hw h.hungUp), by simp [h.crew_eq], h.hungUp, h.producer,
    h.queue, fun n hn => ?_, fun n hn hnc => ?_⟩
  · by_cases hnk : n = k
    · subst hnk
      exact List.getElem?_set_self hlen
    · rw [workers_fail, List.getElem?_set_ne (Ne.symm hnk)]
      exact h.gone n (by omega)
  · rw [workers_fail, List.getElem?_set_ne (by omega)]
    exact h.busy n (by omega) hnc

/-- Once all workers have left the producer at a full queue, nothing moves any more. -/
theorem Jammed.stuck (h : s.Jammed crew crew) (m : Move) : step m s = none := by
  cases m with
  | producer =>
    obtain ⟨i, hp⟩ := h.producer
    simp [step, stepProducer, hp, h.queue]
  | worker n =>
    by_cases hn : n < crew
    · simp [step, stepWorker, Crew.stepIdle, h.gone n hn]
    · have : s.workers[n]? = none := List.getElem?_eq_none (by rw [h.crew_eq]; omega)
      simp [step, stepWorker, Crew.stepIdle, this]
  | reader => simp [step, h.hungUp]
  | hangUp => simp [step, h.hungUp]

/-- A plan with more chunks than the workers and the queue can keep may leave the sender stuck. -/
theorem exists_jammed (payload : Bytes) {plan : Plan} {workers : Nat}
    (h : max workers 1 + queueDepth < plan.total) :
    ∃ s, Reaches (.start payload plan workers) s ∧ s.Jammed (max workers 1) (max workers 1) := by
  have start : Reaches (.start payload plan workers)
      { Sender.start payload plan workers with hungUp := true, unread := 0 } :=
    Reaches.refl.next .hangUp rfl
  obtain ⟨s, hs, manned⟩ := Reaches.climb (Manned plan (max workers 1)) (max workers 1)
    (fun k t hk ht => ht.next hk (by omega))
    (s := { Sender.start payload plan workers with hungUp := true, unread := 0 })
    ⟨rfl, by simp [Sender.start], rfl, rfl, rfl, rfl, by simp, by simp +contextual [Sender.start]⟩
  obtain ⟨t, ht, filled⟩ := Reaches.climb (Filled plan (max workers 1)) queueDepth
    (fun k t hk ht => ht.next hk (by omega))
    (s := s) ⟨manned.plan_eq, manned.crew_eq, manned.hungUp, manned.running, manned.producer,
      by simp [manned.queue], manned.ahead⟩
  have last := (Reaches.refl (s := t)).producer
    (.offer filled.producer (filled.plan_eq ▸ h) filled.running)
  obtain ⟨u, hu, jammed⟩ := Reaches.climb (Jammed (max workers 1)) (max workers 1)
    (fun k t hk ht => ht.next hk)
    (s := { t with producer := .enqueuing (max workers 1 + queueDepth) })
    ⟨filled.crew_eq, filled.hungUp, ⟨_, rfl⟩, filled.queue, by simp, fun n _ hn => filled.busy n hn⟩
  exact ⟨u, start.trans (hs.trans (ht.trans (last.trans hu))), jammed⟩

end Sender

/-- The sender always has a move as long as it has no answer and the stream responds, whatever its
parties do in whatever order, exactly if the workers and the queue can keep all chunks. -/
theorem moves_until_done_iff (payload : Bytes) (plan : Plan) (workers : Nat) :
    (∀ s, Reaches (.start payload plan workers) s → s.verdict? = none → s.Responsive → ¬s.Idle) ↔
      plan.total ≤ max workers 1 + queueDepth := by
  constructor
  · intro h
    apply Nat.le_of_not_lt
    intro long
    obtain ⟨s, hs, jammed⟩ := Sender.exists_jammed payload long
    obtain ⟨i, hp⟩ := jammed.producer
    exact h s hs (by simp [Sender.verdict?, hp]) (.inl jammed.hungUp)
      ⟨jammed.stuck _, fun n => jammed.stuck _⟩
  · intro short s hs hv hr idle
    have := idle.total_gt hr hv ((Sender.Paced.start payload plan workers).reaches hs)
    rw [hs.const.2.1, hs.const.2.2] at this
    simp only [Sender.start, List.length_replicate] at this
    omega

end Strongbox.Sending
