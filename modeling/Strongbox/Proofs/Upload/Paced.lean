import Strongbox.Proofs.Store.Confined
import Strongbox.Proofs.Upload.Invariant

/-!
# Uploads in a store that may fail

What a move of an upload can do where nothing is known of the store's failures.
-/

namespace Strongbox.Upload

open Ledger Message

/-- The front settles the upload only after all others have left. -/
structure Paced (p : Pipeline) : Prop where
  drained : p.drained = true → p.deserted = true ∧ p.results = []
  still : p.front.working? = none → Still p
  waiting : p.front = .opening ∨ (∃ o, p.front = .creating o) → p.drained = false

/-- What the front has made of the first of the frames. -/
inductive Opened (frames : List Item) (p : Pipeline) : Prop where
  | waiting (hf : p.front = .opening) (hi : p.inbound = frames)
  | refused {f : Failure} (hf : p.front = .finished (.error f))
      (refused : offer frames.head? = .error f)
  | accepted {o : Offer} (hf : p.front ≠ .opening) (offered : offer frames.head? = .ok o)

theorem Paced.start (workers : Nat) (frames : List Item) : Paced (.start workers frames) where
  drained h := by cases h
  still _ := ⟨by simp [Pipeline.start], rfl, .inr rfl⟩
  waiting _ := rfl

variable {σ : Type} [Store σ] {key : Key} {owner file : Int} {now : Moment} {m : Move}
  {n : Nat} {iv : Option Nonce} {frames : List Item} {s t : σ} {p q : Pipeline}

theorem Paced.worker (paced : Paced p) (move : WorkerMove key n iv s p t q) : Paced q := by
  have working : p.front.working? ≠ none := fun h => (paced.still h).no_worker move
  have undrained : p.drained ≠ true := fun hd =>
    move.present.not_gone (Crew.deserted_iff.1 (paced.drained hd).1)
  have front_eq : q.front = p.front := by cases move <;> rfl
  have drained_eq : q.drained = p.drained := by cases move <;> rfl
  constructor
  · exact fun hd => absurd (drained_eq ▸ hd) undrained
  · exact fun hw => absurd (front_eq ▸ hw) working
  · intro _
    rw [drained_eq]
    exact Bool.not_eq_true _ ▸ undrained

omit [Store σ] in
theorem Paced.accumulator (paced : Paced p) (move : AccumulatorMove p q) : Paced q := by
  have working : p.front.working? ≠ none := fun h => (paced.still h).no_accumulator move
  have started : ¬(p.front = .opening ∨ ∃ o, p.front = .creating o) := by
    rintro (hf | ⟨o, hf⟩) <;> exact working (by rw [hf]; rfl)
  cases move with
  | add hr | pass hr | stop hr =>
    refine ⟨fun hd => ?_, fun hw => absurd hw working, fun hf => absurd hf started⟩
    have told := (paced.drained hd).2
    rw [hr] at told
    cases told
  | leave hr hc gone hd =>
    exact ⟨fun _ => ⟨gone, hr⟩, fun hw => absurd hw working, fun hf => absurd hf started⟩

theorem Paced.front (paced : Paced p) (move : FrontMove owner now s p t q) : Paced q := by
  have settle : p.deserted = true → p.drained = true → Still p := fun gone hd =>
    ⟨Crew.deserted_iff.1 gone, (paced.drained hd).2, .inl hd⟩
  cases move with
  | accept hf ho =>
    exact ⟨paced.drained, fun _ => { paced.still (by rw [hf]; rfl) with },
      fun _ => paced.waiting (.inl hf)⟩
  | refuse hf ho => exact ⟨paced.drained, fun _ => { paced.still (by rw [hf]; rfl) with }, nofun⟩
  | create hf hs =>
    have undrained := paced.waiting (.inr ⟨_, hf⟩)
    refine ⟨fun hd => ?_, nofun, nofun⟩
    rw [undrained] at hd
    cases hd
  | heed | rest | receive | reject | enqueue => exact ⟨paced.drained, nofun, nofun⟩
  | doom hf gone hd | pass hf gone hd | lack hf gone hd =>
    exact ⟨paced.drained, fun _ => { settle gone hd with }, nofun⟩
  | miss hf | complete hf | spoil hf | purge hf | leave hf =>
    exact ⟨paced.drained, fun _ => { paced.still (by rw [hf]; rfl) with }, nofun⟩

/-- Every move leaves the settling of the upload to the end. -/
theorem Paced.step (paced : Paced p) (h : step key owner now m s p = some (t, q)) : Paced q := by
  cases m with
  | front => exact paced.front (stepFront_eq_some_iff.1 h)
  | worker n iv => exact paced.worker (stepWorker_eq_some_iff.1 h)
  | accumulator =>
    obtain ⟨r, hr, heq⟩ := Option.map_eq_some_iff.1 h
    cases heq
    exact paced.accumulator (stepAccumulator_eq_some_iff.1 hr)

/-- Where only the front can move, a move is one of the front. -/
theorem Still.front_of_step (still : Still p) (h : Upload.step key owner now m s p = some (t, q)) :
    m = .front ∧ FrontMove owner now s p t q := by
  cases m with
  | front => exact ⟨rfl, stepFront_eq_some_iff.1 h⟩
  | worker n iv => exact (still.no_worker (stepWorker_eq_some_iff.1 h)).elim
  | accumulator =>
    obtain ⟨r, hr, -⟩ := Option.map_eq_some_iff.1 h
    exact (still.no_accumulator (stepAccumulator_eq_some_iff.1 hr)).elim

theorem Paced.unfinished (paced : Paced p) (h : Upload.step key owner now m s p = some (t, q))
    (v : Except Failure Summary) : p.front ≠ .finished v := by
  intro hf
  obtain ⟨-, move⟩ := (paced.still (by rw [hf]; rfl)).front_of_step h
  cases move <;> simp_all

theorem front_of_worker (move : WorkerMove key n iv s p t q) : q.front = p.front := by
  cases move <;> rfl

theorem Opened.step (opened : Opened frames p) (paced : Paced p)
    (h : step key owner now m s p = some (t, q)) : Opened frames q := by
  cases opened with
  | waiting hf hi =>
    obtain ⟨-, move⟩ := (paced.still (by rw [hf]; rfl)).front_of_step h
    cases move with
    | accept _ ho => exact .accepted nofun (hi ▸ ho)
    | refuse _ ho => exact .refused rfl (hi ▸ ho)
    | create hf' | miss hf' | heed hf' | rest hf' | receive hf' | reject hf' | enqueue hf'
    | doom hf' | pass hf' | lack hf' | complete hf' | spoil hf' | purge hf' | leave hf' =>
      cases hf.symm.trans hf'
  | refused hf => exact absurd hf (paced.unfinished h _)
  | accepted hf offered =>
    refine .accepted (fun hq => ?_) offered
    cases m with
    | front => cases stepFront_eq_some_iff.1 h <;> first | exact hf hq | cases hq
    | worker n iv => exact hf (front_of_worker (stepWorker_eq_some_iff.1 h) ▸ hq)
    | accumulator =>
      obtain ⟨r, hr, heq⟩ := Option.map_eq_some_iff.1 h
      cases heq
      cases stepAccumulator_eq_some_iff.1 hr <;> exact hf hq

/-- An upload shows that it is complete once that is its answer, and that it has failed from the
moment it gives its file up. -/
structure Phased (p : Pipeline) : Prop where
  complete_iff : p.phase = .complete ↔ ∃ v, p.front = .finished (.ok v)
  failed_iff : p.phase = .failed ↔
    (∃ f, p.front = .finished (.error f)) ∨ ∃ job f, p.front = .purging job f

omit [Store σ] in
theorem Phased.start (workers : Nat) (frames : List Item) : Phased (.start workers frames) where
  complete_iff := by simp [Pipeline.start]
  failed_iff := by simp [Pipeline.start]

omit [Store σ] in
/-- Who changes neither the phase nor the front keeps them in step. -/
theorem Phased.of_eq (phased : Phased p) (phase_eq : q.phase = p.phase)
    (front_eq : q.front = p.front) : Phased q := by
  obtain ⟨complete_iff, failed_iff⟩ := phased
  rw [← phase_eq, ← front_eq] at complete_iff failed_iff
  exact ⟨complete_iff, failed_iff⟩

theorem Phased.front (phased : Phased p) (move : FrontMove owner now s p t q) : Phased q := by
  obtain ⟨complete_iff, failed_iff⟩ := phased
  cases move with
  | accept hf | heed hf | rest hf | receive hf | reject hf | enqueue hf =>
    simp only [hf, reduceCtorEq, exists_const] at complete_iff failed_iff
    exact ⟨by simpa [Pipeline.close] using complete_iff, by simpa [Pipeline.close] using failed_iff⟩
  | create | pass => exact ⟨by simp, by simp⟩
  | refuse | miss | doom | lack | complete | spoil => exact ⟨by simp, by simp⟩
  | purge hf | leave hf =>
    have failed : p.phase = .failed := failed_iff.2 (.inr ⟨_, _, hf⟩)
    exact ⟨by simp [failed], by simp [failed]⟩

theorem Phased.step (phased : Phased p) (h : Upload.step key owner now m s p = some (t, q)) :
    Phased q := by
  cases m with
  | front => exact phased.front (stepFront_eq_some_iff.1 h)
  | worker n iv =>
    exact phased.of_eq (by cases stepWorker_eq_some_iff.1 h <;> rfl)
      (front_of_worker (stepWorker_eq_some_iff.1 h))
  | accumulator =>
    obtain ⟨r, hr, heq⟩ := Option.map_eq_some_iff.1 h
    cases heq
    exact phased.of_eq (by cases stepAccumulator_eq_some_iff.1 hr <;> rfl)
      (by cases stepAccumulator_eq_some_iff.1 hr <;> rfl)

/-- An upload whose first frame is refused leaves the store alone. -/
theorem Opened.store_eq {f : Failure} (opened : Opened frames p) (paced : Paced p)
    (refused : offer frames.head? = .error f) (h : Upload.step key owner now m s p = some (t, q)) :
    t = s := by
  cases opened with
  | waiting hf hi =>
    obtain ⟨-, move⟩ := (paced.still (by rw [hf]; rfl)).front_of_step h
    cases move with
    | create hf' | complete hf' | purge hf' => cases hf.symm.trans hf'
    | accept | refuse | miss | heed | rest | receive | reject | enqueue | doom | pass | lack
    | spoil | leave => rfl
  | refused hf => exact absurd hf (paced.unfinished h _)
  | accepted hf offered => cases offered.symm.trans refused

variable [Ledger σ] [Labelled σ]

/-- What a move may do to the store. -/
inductive Touched (m : Move) (p q : Pipeline) (s : σ) : σ → Prop where
  | nothing (file : ∀ file, q.front.charge? = some file → p.front.charge? = some file) :
      Touched m p q s s
  | new {file : Int} {t : σ} (hm : m = .front) (hp : p.front.charge? = none)
      (hq : q.front.charge? = some file) (extended : Extended file s t) : Touched m p q s t
  | own {file : Int} {t : σ} (hp : p.front.file? = some file)
      (hq : q.front.charge? = some file ∨ q.front.charge? = none) (confined : Confined file s t) :
      Touched m p q s t

omit [Store σ] in
theorem Touched.onward (touched : Touched m p q s t) : Onward s t := by
  cases touched with
  | nothing => exact .same
  | new _ _ _ extended => exact .extended extended
  | own _ _ confined => exact .confined confined

omit [Store σ] in
/-- Where the store has a new file, the move has made it. -/
theorem Touched.made (touched : Touched m p q s t) (extended : Extended file s t) :
    p.front.charge? = none ∧ q.front.charge? = some file := by
  have := extended.file_eq
  have := extended.last_eq
  cases touched with
  | nothing => omega
  | new _ hp hq extended' =>
    rw [extended.file_eq, ← extended'.file_eq]
    exact ⟨hp, hq⟩
  | own _ _ confined =>
    have := confined.last_eq
    omega

variable [ConfinedStore σ]

theorem storePiece_confined {u : σ} {piece : Piece} (sound : Sound s)
    (h : storePiece key file iv s piece = .ok u) : Confined file s u := by
  unfold storePiece at h
  cases hc : sealPiece key iv piece with
  | error f =>
    rw [hc] at h
    cases h
  | ok c =>
    rw [hc] at h
    exact ConfinedStore.save sound h

theorem touched_of_step (sound : Sound s) (h : Upload.step key owner now m s p = some (t, q)) :
    Touched m p q s t := by
  cases m with
  | worker n iv =>
    cases stepWorker_eq_some_iff.1 h with
    | idle | drop | begin | fail | report => exact .nothing fun _ => id
    | store hw hf hs =>
      exact .own hf (.inl (charge?_of_file? hf)) (storePiece_confined sound hs)
  | accumulator =>
    obtain ⟨r, hr, heq⟩ := Option.map_eq_some_iff.1 h
    cases heq
    cases stepAccumulator_eq_some_iff.1 hr <;> exact .nothing fun _ => id
  | front =>
    cases stepFront_eq_some_iff.1 h with
    | accept hf | refuse hf | miss hf | leave hf => exact .nothing nofun
    | heed hf | rest hf | receive hf | reject hf | enqueue hf | doom hf | pass hf | lack hf
    | spoil hf => exact .nothing fun _ hq => by rw [hf]; exact hq
    | create hf hs => exact .new rfl (by rw [hf]; rfl) rfl (ConfinedStore.create sound hs)
    | complete hf hs => exact .own (by rw [hf]; rfl) (.inl rfl) (ConfinedStore.complete sound hs)
    | purge hf hs => exact .own (by rw [hf]; rfl) (.inr rfl) (ConfinedStore.purge sound hs).1

/-- An upload that lets its file go has failed, and either nothing is left of the file or the store
failed to forget it. -/
theorem settled_of_step (sound : Sound s)
    (hc : p.front.charge? = some file) (h : Upload.step key owner now m s p = some (t, q)) :
    q.front.charge? = some file ∨ ∃ job f, job.file = file ∧ p.front = .purging job f ∧ m = .front ∧
      q.front = .finished (.error f) ∧ (Gone file t ∨ ∃ g, Store.purge s file = .error g) := by
  cases m with
  | worker n iv => exact .inl (front_of_worker (stepWorker_eq_some_iff.1 h) ▸ hc)
  | accumulator =>
    obtain ⟨r, hr, heq⟩ := Option.map_eq_some_iff.1 h
    cases heq
    cases stepAccumulator_eq_some_iff.1 hr <;> exact .inl hc
  | front =>
    cases stepFront_eq_some_iff.1 h with
    | accept hf | refuse hf | miss hf | create hf =>
      rw [hf] at hc
      cases hc
    | heed hf | rest hf | receive hf | reject hf | enqueue hf | doom hf | pass hf | lack hf
    | complete hf | spoil hf =>
      rw [hf] at hc
      exact .inl hc
    | @purge job f t hf hs =>
      rw [hf] at hc
      cases hc
      exact .inr ⟨job, f, rfl, hf, rfl, rfl, .inl (ConfinedStore.purge sound hs).2⟩
    | @leave job f g hf hs =>
      rw [hf] at hc
      cases hc
      exact .inr ⟨job, f, rfl, hf, rfl, rfl, .inr ⟨g, hs⟩⟩

end Strongbox.Upload
