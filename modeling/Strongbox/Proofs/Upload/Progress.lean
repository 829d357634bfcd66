import Strongbox.Proofs.Upload.Invariant

/-!
# An upload never gets stuck
-/

namespace Strongbox.Upload

open Message Ledger

variable {σ : Type} [Store σ]

/-- Someone has a move, with a nonce at hand. -/
def Moves (key : Key) (owner : Int) (now : Moment) (nonce : Nonce) (s : σ) (p : Pipeline) : Prop :=
  ∃ m t q, (m = .front ∨ m = .accumulator ∨ ∃ n, m = .worker n (some nonce)) ∧
    step key owner now m s p = some (t, q)

variable {key : Key} {owner : Int} {now : Moment} {nonce : Nonce} {s t : σ} {p q : Pipeline}

theorem Moves.front (m : FrontMove owner now s p t q) : Moves key owner now nonce s p :=
  ⟨.front, t, q, .inl rfl, stepFront_eq_some_iff.2 m⟩

theorem Moves.worker {n : Nat} (m : WorkerMove key n (some nonce) s p t q) :
    Moves key owner now nonce s p :=
  ⟨.worker n (some nonce), t, q, .inr (.inr ⟨n, rfl⟩), stepWorker_eq_some_iff.2 m⟩

theorem Moves.accumulator (m : AccumulatorMove p q) : Moves key owner now nonce s p := by
  refine ⟨.accumulator, s, q, .inr (.inl rfl), ?_⟩
  rw [step, stepAccumulator_eq_some_iff.2 m]
  rfl

theorem Moves.take {r : Outcome} {others : List Outcome} (hr : p.results = r :: others) :
    Moves key owner now nonce s p := by
  cases r with
  | ok n => exact .accumulator (.add hr)
  | error f =>
    cases hf : p.failed with
    | true => exact .accumulator (.pass hr hf)
    | false => exact .accumulator (.stop hr hf)

/-- As long as a worker is there, and a chunk waits or none will come, one of the workers or the
accumulator moves. -/
theorem Moves.others {file : Int} (hfile : p.front.file? = some file)
    (present : ∃ n, p.Present n) (fed : p.queue ≠ [] ∨ p.closed = true) :
    Moves key owner now nonce s p := by
  rcases Crew.busy_or_idle .taken present fed with ⟨n, e, hn⟩ | ⟨n, c, m⟩
  · cases e with
    | taken t =>
      cases ha : p.aborted with
      | true => exact .worker (.drop hn ha)
      | false => exact .worker (.begin hn ha)
    | storing t =>
      cases hs : storePiece key file (some nonce) s t with
      | ok u => exact .worker (.store hn hfile hs)
      | error f => exact .worker (.fail hn hfile hs)
    | reporting o =>
      by_cases room : p.results.length < queueDepth
      · exact .worker (.report hn room)
      · cases hr : p.results with
        | nil => simp [hr, queueDepth] at room
        | cons r others => exact .take hr
  · exact .worker (.idle m)

/-- All workers of an upload at work have come, and one that has left knew that no chunk was coming.
-/
structure Manned (p : Pipeline) : Prop where
  crew_eq : p.workers.length = p.crew
  crew_pos : 0 < p.crew
  closed_iff : p.closed = true ↔ ∃ job failure, p.front = .draining job failure
  loyal : p.Loyal

theorem Manned.workers_ne_nil (manned : Manned p) : p.workers ≠ [] := by
  rw [← List.length_pos_iff, manned.crew_eq]
  exact manned.crew_pos

/-- An upload at work has a move, whatever its store does. -/
theorem Manned.moves (manned : Manned p) {job : Job} (at_work : p.front.working? = some job) :
    Moves key owner now nonce s p := by
  have hfile := file?_of_working? at_work
  cases hf : p.front with
  | opening | creating | completing | purging | finished =>
    simp [hf, Front.working?] at at_work
  | receiving job =>
    cases hs : p.slot with
    | some f => exact .front (.heed hf hs)
    | none =>
      cases hi : p.inbound with
      | nil => exact .front (.rest hf hs hi)
      | cons item others =>
        cases ht : piece job.plan item with
        | ok t => exact .front (.receive hf hs hi ht)
        | error f => exact .front (.reject hf hs hi ht)
  | enqueuing job t =>
    by_cases room : p.queue.length < queueDepth
    · exact .front (.enqueue hf room)
    · have full : p.queue ≠ [] := by
        rintro hq
        simp [hq, queueDepth] at room
      exact .others hfile (manned.loyal.present manned.workers_ne_nil full) (.inl full)
  | draining job failure =>
    have closed := manned.closed_iff.2 ⟨job, failure, hf⟩
    by_cases gone : p.deserted = true
    · cases hd : p.drained with
      | true =>
        cases hfail : failure.or p.slot with
        | some f => exact .front (.doom hf gone hd hfail)
        | none =>
          obtain ⟨rfl, hs⟩ := Option.or_eq_none_iff.1 hfail
          by_cases hr : p.received = job.plan.total
          · exact .front (.pass hf gone hd hs hr)
          · exact .front (.lack hf gone hd hs hr)
      | false =>
        cases hr : p.results with
        | nil => exact .accumulator (.leave hr closed gone hd)
        | cons r others => exact .take hr
    · have present := Crew.deserted_eq_false_iff.1 (Bool.not_eq_true _ ▸ gone)
      exact .others hfile present (.inr closed)

/-- An upload that is neither at work nor answered has a move, whatever its store does. -/
theorem Moves.of_front (idle : p.front.working? = none) (unanswered : ∀ v, p.front ≠ .finished v) :
    Moves key owner now nonce s p := by
  cases hf : p.front with
  | receiving | enqueuing | draining => simp [hf, Front.working?] at idle
  | finished v => exact absurd hf (unanswered v)
  | opening =>
    cases ho : offer p.inbound.head? with
    | ok o => exact .front (.accept hf ho)
    | error f => exact .front (.refuse hf ho)
  | creating o =>
    cases hs : Store.create s now owner o.draft with
    | ok made =>
      obtain ⟨file, t⟩ := made
      exact .front (.create hf hs)
    | error f => exact .front (.miss hf hs)
  | completing job =>
    cases hs : Store.complete s job.file p.tally with
    | ok t => exact .front (.complete hf hs)
    | error f => exact .front (.spoil hf hs)
  | purging job f =>
    cases hs : Store.purge s job.file with
    | ok t => exact .front (.purge hf hs)
    | error g => exact .front (.leave hf hs)

variable [Ledger σ] {items : List Item}

omit [Store σ] in
theorem Working.manned {o : Offer} {file : Int} {h : History}
    (work : Working key owner items o file s p h) : Manned p :=
  ⟨work.crew_eq, work.crew_pos, work.closed_iff, work.loyal⟩

theorem Inv.progress (inv : Inv key owner items s p) (unanswered : ∀ v, p.front ≠ .finished v) :
    Moves key owner now nonce s p := by
  cases inv with
  | working work => exact work.manned.moves work.at_work
  | opening hf | creating hf | completing hf | purging hf | done hf | failed hf =>
    exact .of_front (by rw [hf]; rfl) unanswered

end Strongbox.Upload
