import Strongbox.Proofs.Upload.Paced
import Strongbox.Proofs.Upload.Progress
import Strongbox.Upload

/-!
# Uploads settle

Whatever the store answers, whatever others do to it and whoever moves when, an upload goes on until
it has an answer, and then nobody is left at work. The accumulator stops an upload before it tells
the front why, and anything may happen in between.

## Main definitions

* `Upload.Next`, `Upload.Run`: one move of an upload, and whatever can become of an upload.
* `Upload.Alone`: nobody but the front is there.
* `Upload.Tended`: what holds of the parties of an upload at every moment.

## Main statements

* `Upload.Tended.next`: every move keeps the parties of an upload together.
* `Upload.settles_of_run`: an upload moves on until it has an answer, it does so only so often, it
  is never stopped without a failure, and its workers and its accumulator leave before it is
  settled.
-/

namespace Strongbox.Upload

open Message

variable {σ : Type} [Store σ]

/-- One move of an upload, where a worker that stores a chunk is given `iv`. A failure that has
stopped the upload may still be with the accumulator, on its way to the front. -/
inductive Next (key : Key) (owner : Int) (now : Moment) (iv : Option Nonce) :
    σ → Pipeline → Option Failure → σ → Pipeline → Option Failure → Prop where
  | front {s t : σ} {p q : Pipeline} {held : Option Failure}
      (h : stepFront owner now s p = some (t, q)) : Next key owner now iv s p held t q held
  | worker {s t : σ} {p q : Pipeline} {held : Option Failure} (n : Nat)
      (h : stepWorker key s p n iv = some (t, q)) : Next key owner now iv s p held t q held
  | accumulator {s : σ} {p q : Pipeline} (h : stepAccumulator p = some q) :
      Next key owner now iv s p none s q none
  | stop {s : σ} {p : Pipeline} {f : Failure} {others : List Outcome}
      (hr : p.results = .error f :: others) (content : p.failed = false) :
      Next key owner now iv s p none
        s { p with results := others, failed := true, aborted := true } (some f)
  | tell {s : σ} {p : Pipeline} {f : Failure} :
      Next key owner now iv s p (some f) s { p with slot := p.slot.or (some f) } none

/-- Whatever can become of an upload, while others do to the store what they like. -/
inductive Run (key : Key) (owner : Int) (p₀ : Pipeline) : σ → Pipeline → Option Failure → Prop where
  | start (s : σ) : Run key owner p₀ s p₀ none
  | next {s t : σ} {p q : Pipeline} {held told : Option Failure} {now : Moment} {iv : Option Nonce}
      (run : Run key owner p₀ s p held) (h : Next key owner now iv s p held t q told) :
      Run key owner p₀ t q told
  | meanwhile {s : σ} {p : Pipeline} {held : Option Failure} (run : Run key owner p₀ s p held)
      (t : σ) : Run key owner p₀ t p held

/-- Nobody but the front is there: the workers and the accumulator have left, or have never come,
and nothing waits for them. -/
structure Alone (p : Pipeline) (held : Option Failure) : Prop where
  gone : ∀ w ∈ p.workers, w = .exited
  drained : p.workers ≠ [] → p.drained = true
  queue : p.queue = []
  results : p.results = []
  told : held = none

/-- What holds of the parties of an upload at every moment. -/
structure Tended (p : Pipeline) (held : Option Failure) : Prop where
  paced : Paced p
  crew_pos : 0 < p.crew
  manned : p.front.working? ≠ none → Manned p
  alone : p.front.working? = none → Alone p held
  fresh : p.front = .opening ∨ (∃ o, p.front = .creating o) → p.closed = false ∧ p.workers = []
  present : held ≠ none → p.drained = false
  recorded : p.aborted = true → p.front.failure?.isSome ∨
    p.front.working? ≠ none ∧ (p.slot.isSome ∨ held.isSome)

variable {key : Key} {owner : Int} {now : Moment} {iv : Option Nonce} {s t : σ} {p q : Pipeline}
  {held told : Option Failure} {n : Nat}

theorem Tended.start (workers : Nat) (items : List Item) :
    Tended (.start workers items) none where
  paced := .start workers items
  crew_pos := Nat.le_max_right _ _
  manned h := absurd rfl h
  alone _ := ⟨nofun, nofun, rfl, rfl, rfl⟩
  fresh _ := ⟨rfl, rfl⟩
  present h := absurd rfl h
  recorded h := by cases h

/-! ## The workers and the accumulator -/

/-- A worker that moves stays at its place, or leaves it when no chunk is coming. -/
theorem Manned.worker (manned : Manned p) (move : WorkerMove key n iv s p t q) : Manned q := by
  obtain ⟨crew_eq, crew_pos, closed_iff, loyal⟩ := manned
  cases move with
  | idle m =>
    exact ⟨m.length_eq.trans crew_eq, crew_pos, by rwa [m.closed_eq], loyal.idle m⟩
  | drop | begin | store | fail | report =>
    exact ⟨List.length_set.trans crew_eq, crew_pos, closed_iff, loyal.setWorker nofun⟩

theorem Tended.worker (tended : Tended p held) (move : WorkerMove key n iv s p t q) :
    Tended q held := by
  have at_work : p.front.working? ≠ none := fun h => (tended.paced.still h).no_worker move
  have front_eq := front_of_worker move
  have drained_eq : q.drained = p.drained := by cases move <;> rfl
  have crew_eq : q.crew = p.crew := by cases move <;> rfl
  have aborted_eq : q.aborted = p.aborted := by cases move <;> rfl
  have slot_eq : q.slot = p.slot := by cases move <;> rfl
  constructor
  case paced => exact tended.paced.worker move
  case crew_pos => exact crew_eq ▸ tended.crew_pos
  case manned => exact fun _ => (tended.manned at_work).worker move
  case alone => exact fun h => absurd (front_eq ▸ h) at_work
  case fresh =>
    rw [front_eq]
    rintro (hf | ⟨o, hf⟩) <;> simp [hf, Front.working?] at at_work
  case present =>
    rw [drained_eq]
    exact tended.present
  case recorded =>
    rw [aborted_eq, front_eq, slot_eq]
    exact tended.recorded

/-- As long as reports wait, the accumulator is there and the front is at work. -/
theorem Tended.of_results (tended : Tended p held) {r : Outcome} {others : List Outcome}
    (hr : p.results = r :: others) : p.front.working? ≠ none ∧ p.drained = false := by
  constructor
  · intro idle
    have := (tended.alone idle).results
    rw [hr] at this
    cases this
  · cases hd : p.drained with
    | false => rfl
    | true =>
      have := (tended.paced.drained hd).2
      rw [hr] at this
      cases this

/-- The accumulator takes a report off the queue, and nobody else is concerned. -/
theorem Tended.taken {tally : Nat} {failed aborted : Bool} {slot : Option Failure}
    (tended : Tended p held) {r : Outcome} {others : List Outcome} (hr : p.results = r :: others)
    (recorded : aborted = true → p.front.failure?.isSome ∨ slot.isSome ∨ told.isSome) :
    Tended { p with results := others, tally := tally, failed := failed, aborted := aborted,
                    slot := slot } told := by
  obtain ⟨at_work, undrained⟩ := tended.of_results hr
  have undrained' : p.drained ≠ true := by simp [undrained]
  constructor
  case paced =>
    exact ⟨fun hd => absurd hd undrained', fun idle => absurd idle at_work, fun _ => undrained⟩
  case crew_pos => exact tended.crew_pos
  case manned => exact fun _ => { tended.manned at_work with }
  case alone => exact fun idle => absurd idle at_work
  case fresh => exact tended.fresh
  case present => exact fun _ => undrained
  case recorded => exact fun ha => (recorded ha).imp id fun h => ⟨at_work, h⟩

theorem Tended.accumulator (tended : Tended p none) (move : AccumulatorMove p q) :
    Tended q none := by
  have recorded : p.aborted = true → p.front.failure?.isSome ∨ p.slot.isSome ∨
      (none : Option Failure).isSome := fun ha => (tended.recorded ha).imp id And.right
  cases move with
  | add hr | pass hr => exact tended.taken hr recorded
  | stop hr =>
    refine tended.taken hr fun _ => .inr (.inl ?_)
    cases p.slot <;> rfl
  | leave hr hc gone hd =>
    refine ⟨tended.paced.accumulator (.leave hr hc gone hd), tended.crew_pos, fun at_work =>
      { tended.manned at_work with }, fun idle => ?_, tended.fresh, fun h => absurd rfl h,
      tended.recorded⟩
    exact { tended.alone idle with drained := fun _ => rfl }

theorem Tended.tell {f : Failure} (tended : Tended p (some f)) :
    Tended { p with slot := p.slot.or (some f) } none := by
  have undrained := tended.present nofun
  have at_work : p.front.working? ≠ none := by
    intro idle
    have := (tended.alone idle).told
    cases this
  have told : (p.slot.or (some f)).isSome := by cases p.slot <;> rfl
  exact ⟨{ tended.paced with still := fun idle => absurd idle at_work }, tended.crew_pos,
    fun _ => { tended.manned at_work with }, fun idle => absurd idle at_work, tended.fresh,
    fun h => absurd rfl h, fun _ => .inr ⟨at_work, .inl told⟩⟩

/-! ## The front -/

theorem Tended.settle (tended : Tended p held) (at_work : p.front.working? ≠ none)
    (gone : p.deserted = true) (hd : p.drained = true) : Alone p held := by
  have manned := tended.manned at_work
  have exited := Crew.deserted_iff.1 gone
  refine ⟨exited, fun _ => hd, manned.loyal.queue_eq_nil manned.workers_ne_nil exited,
    (tended.paced.drained hd).2, ?_⟩
  cases held with
  | none => rfl
  | some f => cases hd.symm.trans (tended.present nofun)

/-- An upload that is neither at work nor failing has not been stopped. -/
theorem Tended.running (tended : Tended p held) (idle : p.front.working? = none)
    (clean : p.front.failure? = none) : p.aborted = false := by
  cases ha : p.aborted with
  | false => rfl
  | true =>
    rcases tended.recorded ha with hf | ⟨at_work, -⟩
    · simp [clean] at hf
    · exact absurd idle at_work

theorem Tended.idle {front : Front} {phase : Phase} {inbound : List Item} (tended : Tended p held)
    (alone : Alone p held) (idle : front.working? = none)
    (paced : Paced { p with front := front, phase := phase, inbound := inbound })
    (fresh : front = .opening ∨ (∃ o, front = .creating o) → p.closed = false ∧ p.workers = [])
    (recorded : p.aborted = true → front.failure?.isSome) :
    Tended { p with front := front, phase := phase, inbound := inbound } held where
  paced := paced
  crew_pos := tended.crew_pos
  manned at_work := absurd idle at_work
  alone _ := { alone with }
  fresh := fresh
  present := tended.present
  recorded ha := .inl (recorded ha)

/-- The queue is open until the front waits for the others to leave. -/
theorem Manned.opened (manned : Manned p)
    (taking : ∀ job failure, p.front ≠ .draining job failure) : p.closed = false := by
  have closed_iff := manned.closed_iff
  grind

/-- The front closes the queue, and what it closes it for is recorded. -/
theorem Tended.close {job : Job} {failure slot : Option Failure} {inbound : List Item}
    (tended : Tended p held) (hf : p.front = .receiving job)
    (kept : failure = none → slot = p.slot) :
    Tended ({ p with slot := slot, inbound := inbound }.close job failure) held := by
  have manned := tended.manned (by rw [hf]; nofun)
  refine ⟨⟨tended.paced.drained, nofun, nofun⟩, tended.crew_pos, fun _ => ?_, nofun, nofun,
    tended.present, fun ha => ?_⟩
  · exact ⟨manned.crew_eq, manned.crew_pos, iff_of_true rfl ⟨_, _, rfl⟩, manned.loyal.close⟩
  · cases failure with
    | some f => exact .inl rfl
    | none =>
      have stopped : p.aborted = true := (Bool.or_false _).symm.trans ha
      refine .inr ⟨nofun, ?_⟩
      simp only [Pipeline.close, kept rfl]
      exact ((tended.recorded stopped).resolve_left (by simp [hf, Front.failure?])).2

theorem Tended.take {front : Front} {queue : List Piece} {inbound : List Item} {received : Nat}
    (tended : Tended p held) (at_work : p.front.working? ≠ none)
    (taking : ∀ job failure, p.front ≠ .draining job failure) (at_work' : front.working? ≠ none)
    (taking' : ∀ job failure, front ≠ .draining job failure)
    (clean : p.front.failure? = none) :
    Tended { p with front := front, queue := queue, inbound := inbound, received := received }
      held := by
  have manned := tended.manned at_work
  have opened := manned.opened taking
  refine ⟨⟨tended.paced.drained, fun idle => absurd idle at_work', ?_⟩, tended.crew_pos,
    fun _ => ?_, fun idle => absurd idle at_work', ?_, tended.present, fun ha => ?_⟩
  · rintro (hf | ⟨o, hf⟩) <;> exact absurd (congrArg Front.working? hf) at_work'
  · refine ⟨manned.crew_eq, manned.crew_pos, by simp [opened, taking'], fun gone => ?_⟩
    cases opened.symm.trans (manned.loyal gone).1
  · rintro (hf | ⟨o, hf⟩) <;> exact absurd (congrArg Front.working? hf) at_work'
  · exact .inr ⟨at_work', ((tended.recorded ha).resolve_left (by simp [clean])).2⟩

theorem Tended.create {job : Job} {o : Offer} (tended : Tended p held)
    (hf : p.front = .creating o) :
    Tended { p with
      front := .receiving job, phase := .receivingChunks,
      workers := List.replicate p.crew .waiting } held := by
  have alone := tended.alone (by rw [hf]; rfl)
  have opened := (tended.fresh (.inr ⟨o, hf⟩)).1
  have undrained := tended.paced.waiting (.inr ⟨o, hf⟩)
  have running := tended.running (by rw [hf]; rfl) (by rw [hf]; rfl)
  refine ⟨⟨fun hd => ?_, nofun, nofun⟩, tended.crew_pos, fun _ => ?_, nofun, nofun, tended.present,
    fun ha => ?_⟩
  · cases undrained.symm.trans hd
  · exact ⟨List.length_replicate, tended.crew_pos, by simp [opened],
      .of_waiting fun _ => List.eq_of_mem_replicate⟩
  · cases running.symm.trans ha

theorem Tended.front (tended : Tended p held) (move : FrontMove owner now s p t q) :
    Tended q held := by
  have paced := tended.paced.front move
  cases move with
  | accept hf ho =>
    have running := tended.running (by rw [hf]; rfl) (by rw [hf]; rfl)
    exact tended.idle (tended.alone (by rw [hf]; rfl)) rfl paced (fun _ => tended.fresh (.inl hf))
      (by simp [running])
  | refuse hf | miss hf | spoil hf =>
    exact tended.idle (tended.alone (by rw [hf]; rfl)) rfl paced nofun fun _ => rfl
  | purge hf | leave hf =>
    exact tended.idle (tended.alone (by rw [hf]; rfl)) rfl paced nofun fun _ => rfl
  | complete hf hs =>
    have running := tended.running (by rw [hf]; rfl) (by rw [hf]; rfl)
    exact tended.idle (tended.alone (by rw [hf]; rfl)) rfl paced nofun (by simp [running])
  | create hf hs => exact tended.create hf
  | heed hf hs => exact tended.close hf nofun
  | rest hf hs hi => exact tended.close hf fun _ => rfl
  | reject hf hs hi ht => exact tended.close hf nofun
  | receive hf hs hi ht =>
    exact tended.take (by rw [hf]; nofun) (by simp [hf]) nofun nofun (by rw [hf]; rfl)
  | enqueue hf room =>
    exact tended.take (by rw [hf]; nofun) (by simp [hf]) nofun nofun (by rw [hf]; rfl)
  | doom hf gone hd | lack hf gone hd =>
    have alone := tended.settle (by rw [hf]; nofun) gone hd
    exact tended.idle alone rfl paced nofun fun _ => rfl
  | pass hf gone hd hs hr =>
    have alone := tended.settle (by rw [hf]; nofun) gone hd
    refine tended.idle alone rfl paced nofun fun ha => ?_
    -- A stopped upload would have its failure in the slot, which is empty.
    have told := (tended.recorded ha).resolve_left (by simp [hf, Front.failure?])
    simp [hs, alone.told] at told

/-! ## All moves -/

theorem Tended.next (tended : Tended p held) (h : Next key owner now iv s p held t q told) :
    Tended q told := by
  cases h with
  | front h => exact tended.front (stepFront_eq_some_iff.1 h)
  | worker n h => exact tended.worker (stepWorker_eq_some_iff.1 h)
  | accumulator h => exact tended.accumulator (stepAccumulator_eq_some_iff.1 h)
  | stop hr content => exact tended.taken hr fun _ => .inr (.inr rfl)
  | tell => exact tended.tell

theorem Run.tended {workers : Nat} {items : List Item}
    (run : Run key owner (.start workers items) s p held) : Tended p held := by
  induction run with
  | start s => exact .start workers items
  | next run h ih => exact ih.next h
  | meanwhile run t ih => exact ih

theorem Next.of_step {m : Move} (h : step key owner now m s p = some (t, q)) :
    ∃ iv, Next key owner now iv s p none t q none := by
  cases m with
  | front => exact ⟨none, .front h⟩
  | worker n iv => exact ⟨iv, .worker n h⟩
  | accumulator =>
    obtain ⟨q, hq, heq⟩ := Option.map_eq_some_iff.1 h
    cases heq
    exact ⟨none, .accumulator hq⟩

/-- Moves that can all be made, one after another, are a run. -/
theorem Run.of_foldlM {p₀ : Pipeline} {ms : List Move} (run : Run key owner p₀ s p none)
    (h : ms.foldlM (fun x m => step key owner now m x.1 x.2) (s, p) = some (t, q)) :
    Run key owner p₀ t q none := by
  induction ms generalizing s p with
  | nil =>
    cases h
    exact run
  | cons m ms ih =>
    obtain ⟨⟨u, r⟩, hu, h⟩ := Option.bind_eq_some_iff.1 h
    obtain ⟨iv, moved⟩ := Next.of_step hu
    exact ih (run.next moved) h

/-- Whether a worker can move does not depend on the nonce that it is given. -/
theorem isSome_stepWorker (nonce : Option Nonce) :
    (stepWorker key s p n iv).isSome = (stepWorker key s p n nonce).isSome := by
  unfold stepWorker
  split <;> try rfl
  split
  · rfl
  · cases storePiece key _ iv s _ <;> cases storePiece key _ nonce s _ <;> rfl

/-- An upload without an answer has a move, unless the accumulator is about to tell of a failure. -/
theorem Tended.someone (tended : Tended p held) (unanswered : ∀ v, p.front ≠ .finished v)
    (now : Moment) (nonce : Nonce) : Moves key owner now nonce s p := by
  cases hw : p.front.working? with
  | some job => exact (tended.manned (by simp [hw])).moves hw
  | none => exact .of_front hw unanswered

theorem Tended.moves (tended : Tended p held) (unanswered : ∀ v, p.front ≠ .finished v)
    (now : Moment) (iv : Option Nonce) : ∃ t q told, Next key owner now iv s p held t q told := by
  cases held with
  | some f => exact ⟨_, _, _, .tell⟩
  | none =>
    have nonce : Nonce := ⟨List.replicate 24 0, List.length_replicate⟩
    have someone : Moves key owner now nonce s p := tended.someone unanswered now nonce
    obtain ⟨m, t, q, rfl | rfl | ⟨n, rfl⟩, h⟩ := someone
    · exact ⟨t, q, none, .front h⟩
    · obtain ⟨r, hr, -⟩ := Option.map_eq_some_iff.1 h
      exact ⟨s, r, none, .accumulator hr⟩
    · have able : (stepWorker key s p n iv).isSome := by
        rw [isSome_stepWorker (some nonce)]
        exact Option.isSome_of_mem h
      obtain ⟨⟨t, q⟩, h⟩ := Option.isSome_iff_exists.1 able
      exact ⟨t, q, none, .worker n h⟩

/-- An upload whose front, accumulator and workers cannot move has an answer. -/
theorem Run.answered {workers : Nat} {items : List Item} {nonces : Nat → Option Nonce}
    (run : Run key owner (.start workers items) s p none)
    (idle : ∀ m ∈ frontFirst nonces p.weight p.workers.length,
      step key owner now m s p = none) : ∃ v, p.front = .finished v := by
  refine Classical.byContradiction fun unanswered => ?_
  have nonce : Nonce := ⟨List.replicate 24 0, List.length_replicate⟩
  have someone : Moves key owner now nonce s p :=
    run.tended.someone (not_exists.1 unanswered) now nonce
  obtain ⟨m, t, q, rfl | rfl | ⟨n, rfl⟩, h⟩ := someone
  · cases h.symm.trans (idle .front (by simp [frontFirst]))
  · cases h.symm.trans (idle .accumulator (by simp [frontFirst]))
  · have present := (stepWorker_eq_some_iff.1 h).present.lt_length
    have still : stepWorker key s p n (nonces p.weight) = none :=
      idle (.worker n (nonces p.weight)) (by simpa [frontFirst] using present)
    have able : (stepWorker key s p n (nonces p.weight)).isSome := by
      rw [isSome_stepWorker (some nonce)]
      exact Option.isSome_of_mem h
    rw [still] at able
    cases able

/-- Whatever its store answers, and whether or not nonces can be drawn, an upload ends with an
answer. -/
theorem answered_of_run (nonces : Nat → Option Nonce) (workers : Nat) (items : List Item) :
    ∃ v, ((machine key owner now).run (frontFirst nonces)
      (s, .start workers items)).2.front = .finished v := by
  let x := (machine key owner now).run (frontFirst nonces) (s, .start workers items)
  have run : Run key owner (.start workers items) x.1 x.2 none :=
    Machine.run_induction
      (P := fun x : σ × Pipeline => Run key owner (.start workers items) x.1 x.2 none) (.start s)
      fun _ run h => run.next (Next.of_step h).choose_spec
  exact run.answered fun m asked => Machine.step_run (M := machine key owner now) asked

theorem Next.lighter (h : Next key owner now iv s p held t q told) :
    2 * q.weight + told.toList.length < 2 * p.weight + held.toList.length := by
  cases h with
  | front h =>
    have := weight_stepFront h
    omega
  | worker n h =>
    have := weight_stepWorker h
    omega
  | accumulator h =>
    have := weight_stepAccumulator h
    omega
  | stop hr content =>
    simp only [Pipeline.weight, hr, List.length_cons, Option.toList]
    omega
  | tell =>
    simp only [Pipeline.weight, Option.toList, List.length_cons, List.length_nil]
    omega

theorem Next.stopped (h : Next key owner now iv s p held t q told) (ha : p.aborted = true) :
    q.aborted = true := by
  cases h with
  | front h =>
    cases stepFront_eq_some_iff.1 h with
    | heed | rest | reject => simp [Pipeline.close, ha]
    | _ => exact ha
  | worker n h => cases stepWorker_eq_some_iff.1 h <;> exact ha
  | accumulator h =>
    cases stepAccumulator_eq_some_iff.1 h with
    | stop => rfl
    | _ => exact ha
  | stop => rfl
  | tell => exact ha

/-- Whatever its store answers and whoever moves when, an upload without an answer has a move, and
it moves only so often. An upload that is stopped stays so, its failure is recorded or on its way to
the front, and it is never marked as complete. When the front takes no more frames and waits for
nobody, the workers and the accumulator have left. -/
theorem settles_of_run {workers : Nat} {items : List Item}
    (run : Run key owner (.start workers items) s p held) :
    ((∀ v, p.front ≠ .finished v) → ∀ now iv, ∃ t q told,
      Next key owner now iv s p held t q told) ∧
    (∀ now iv t q told, Next key owner now iv s p held t q told →
      2 * q.weight + told.toList.length < 2 * p.weight + held.toList.length ∧
        (p.aborted = true → q.aborted = true)) ∧
    (p.aborted = true → p.front.failure?.isSome ∨ p.slot.isSome ∨ held.isSome) ∧
    (p.aborted = true → (∀ job, p.front ≠ .completing job) ∧ ∀ v, p.front ≠ .finished (.ok v)) ∧
    (p.front.working? = none → Alone p held) := by
  have tended := run.tended
  refine ⟨tended.moves, fun now iv t q told h => ⟨h.lighter, h.stopped⟩, fun ha => ?_, fun ha => ?_,
    tended.alone⟩
  · exact (tended.recorded ha).imp id And.right
  · constructor
    · intro job hf
      cases (tended.running (by rw [hf]; rfl) (by rw [hf]; rfl)).symm.trans ha
    · intro v hf
      cases (tended.running (by rw [hf]; rfl) (by rw [hf]; rfl)).symm.trans ha

/-- An upload is stopped while its queue is full, its front waits for room and the failure is still
with the accumulator: somebody can move. -/
theorem settles_of_full_queue :
    let key : Key := ⟨List.replicate 32 0, List.length_replicate⟩
    let frames : List Item :=
      .ok (.metadata { originalSize := 102, chunkSize := 1, totalChunks := 102 }) ::
        List.replicate 102 (.ok (.chunk { data := [7] }))
    ∃ (s : Resident) (p : Pipeline) (f : Failure), Run key 5 (.start 1 frames) s p (some f) ∧
      p.aborted = true ∧ p.queue.length = queueDepth ∧ (∃ job t, p.front = .enqueuing job t) ∧
      ∃ t q told, Next key 5 default none s p (some f) t q told := by
  intro key frames
  let worker : Move := .worker 0 none
  let ms : List Move :=
    List.replicate 4 .front ++ List.replicate 5 worker ++ List.replicate 201 .front
  have course : ((ms.foldlM (fun x m => step key 5 default m x.1 x.2)
      (({} : Resident), Pipeline.start 1 frames)).map fun x =>
        (x.2.results.map Except.toBool, x.2.failed, x.2.queue.length, x.2.front.weight 1)) =
          some ([false], false, queueDepth, 11) := by
    decide +kernel
  obtain ⟨⟨s, p⟩, moved, reached⟩ := Option.map_eq_some_iff.1 course
  simp only [Prod.mk.injEq, List.map_eq_singleton_iff] at reached
  obtain ⟨⟨r, hr, unstored⟩, content, full, waits⟩ := reached
  -- No other front than one that waits for room has this weight.
  have enqueuing : ∃ job t, p.front = .enqueuing job t := by
    cases hf : p.front <;> simp [hf, Front.weight] at waits ⊢
  obtain ⟨job, t, hf⟩ := enqueuing
  cases r with
  | ok n => cases unstored
  | error f =>
    have stop : Next key 5 default none s p none _ _ (some f) := .stop hr content
    have run := (Run.of_foldlM (.start _) moved).next stop
    have moves := (settles_of_run run).1 (by simp [hf]) default none
    exact ⟨s, _, f, run, rfl, full, ⟨job, t, hf⟩, moves⟩

end Strongbox.Upload
