import Strongbox.Proofs.Exchange
import Strongbox.Proofs.Sending.Frames

/-!
# The two sides of an exchange agree

A sender fails only when its stream is closed, and the server closes no stream of which it accepts
the file. So what the server has accepted was sent without a failure.
-/

namespace Strongbox

open Message

namespace Upload

/-- The front has taken all frames up to the end of the stream, and no failure is known. -/
def Front.isClean : Front → Bool
  | draining _ none | completing _ | finished (.ok _) => true
  | _ => false

variable {σ : Type} [Store σ] {key : Key} {owner : Int} {now : Moment} {m : Move} {s t : σ}
  {p q : Pipeline}

/-- A front takes frames only as long as it has not stopped. -/
theorem reads_of_step (h : step key owner now m s p = some (t, q)) (hq : q.front.reads = true) :
    p.front.reads = true := by
  cases m with
  | worker n iv => cases stepWorker_eq_some_iff.1 h <;> exact hq
  | accumulator =>
    obtain ⟨r, hr, heq⟩ := Option.map_eq_some_iff.1 h
    cases heq
    cases stepAccumulator_eq_some_iff.1 hr <;> exact hq
  | front =>
    cases stepFront_eq_some_iff.1 h with
    | accept hf | create hf | receive hf | enqueue hf => rw [hf]; rfl
    | refuse | miss | heed | rest | reject | doom | pass | lack | complete | spoil | purge
    | leave =>
      cases hq

/-- A front is done with its frames when it finds that the stream has ended. -/
theorem clean_of_step (h : step key owner now m s p = some (t, q)) (hq : q.front.isClean = true) :
    p.front.isClean = true ∨ m.isFront = true ∧ p.awaits = true ∧ p.front.reads = true := by
  cases m with
  | worker n iv => cases stepWorker_eq_some_iff.1 h <;> exact .inl hq
  | accumulator =>
    obtain ⟨r, hr, heq⟩ := Option.map_eq_some_iff.1 h
    cases heq
    cases stepAccumulator_eq_some_iff.1 hr <;> exact .inl hq
  | front =>
    cases stepFront_eq_some_iff.1 h with
    | rest hf hs hi => exact .inr ⟨rfl, by simp [Pipeline.awaits, hf, hs, hi], by rw [hf]; rfl⟩
    | pass hf | complete hf =>
      rw [hf]
      exact .inl rfl
    | accept | refuse | create | miss | heed | receive | reject | enqueue | doom | lack | spoil
    | purge | leave => cases hq

end Upload

namespace Exchange

variable {σ : Type} [Store σ] {t : Transfer} {x y : Exchange σ} {e : Event} {es : List Event}
  {owner : Int} {p : Upload.Pipeline}

/-- The stream is open while the server takes frames, and all has been sent when the server has
taken the last of them. -/
structure Tidy (x : Exchange σ) : Prop where
  faithful : x.sender.Faithful
  opened : ∀ owner p, x.upload? = some (owner, p) → p.front.reads = true → x.sender.hungUp = false
  done : ∀ owner p, x.upload? = some (owner, p) → p.front.isClean = true →
    x.sender.deserted = true ∧ x.sender.failure = none ∧ x.carried = x.items.length

omit [Store σ] in
/-- A sender elsewhere, which has not closed the stream, keeps the exchange tidy. -/
theorem Tidy.sender {s : Sending.Sender} (tidy : x.Tidy) (faithful : s.Faithful)
    (hungUp : s.hungUp = x.sender.hungUp) (plan : s.plan = x.sender.plan)
    (gone : x.sender.deserted = true →
      s.deserted = true ∧ s.failure = x.sender.failure ∧ s.sent = x.sender.sent) :
    ({ x with sender := s } : Exchange σ).Tidy where
  faithful := faithful
  opened owner p hp hr := hungUp.trans (tidy.opened owner p hp hr)
  done owner p hp hc := by
    obtain ⟨deserted, content, all⟩ := tidy.done owner p hp hc
    obtain ⟨deserted', same, sent⟩ := gone deserted
    exact ⟨deserted', same.trans content, by simp only [items, sent, plan]; exact all⟩

theorem Tidy.serve {now : Moment} {m : Upload.Move} {s : σ} {q : Upload.Pipeline} (tidy : x.Tidy)
    (hp : x.upload? = some (owner, p))
    (h : Upload.step t.key owner now m x.traffic.store p = some (s, q))
    (ready : m.isFront = true → p.awaits = true → x.ended = true) :
    ({ x with traffic := x.traffic.moveTo x.call s (.uploading owner q) } : Exchange σ).Tidy := by
  refine ⟨tidy.faithful, fun owner' p' hp' hr => ?_, fun owner' p' hp' hc => ?_⟩
  · cases hp'.symm.trans (upload?_of_moveTo hp rfl rfl)
    exact tidy.opened owner p hp (Upload.reads_of_step h hr)
  · cases hp'.symm.trans (upload?_of_moveTo hp rfl rfl)
    rcases Upload.clean_of_step h hc with old | ⟨front, awaits, reads⟩
    · exact tidy.done owner p hp old
    · have ended := ready front awaits
      simp only [Exchange.ended, Bool.and_eq_true, beq_iff_eq] at ended
      exact ⟨ended.1, tidy.faithful.content (tidy.opened owner p hp reads), ended.2⟩

theorem Tidy.step (tidy : x.Tidy) (linked : x.Linked owner) (h : Advance t x y) : y.Tidy := by
  obtain ⟨p, hp⟩ := linked.here
  cases h with
  | produce m =>
    have faithful := tidy.faithful.producer m
    cases m <;> exact tidy.sender faithful rfl rfl fun gone => ⟨gone, rfl, rfl⟩
  | @send n s m =>
    have faithful := tidy.faithful.worker m
    have present : x.sender.deserted ≠ true :=
      fun gone => m.present.not_gone (Crew.deserted_iff.1 gone)
    cases m <;> exact tidy.sender faithful rfl rfl fun gone => absurd gone present
  | carry hp hi =>
    refine ⟨{ tidy.faithful with }, fun owner' p' hp' hr => ?_, fun owner' p' hp' hc => ?_⟩
    · cases hp'.symm.trans (upload?_of_moveTo hp rfl rfl)
      exact tidy.opened _ _ hp hr
    · cases hp'.symm.trans (upload?_of_moveTo hp rfl rfl)
      have all := (tidy.done _ _ hp hc).2.2
      have lt := (List.getElem?_eq_some_iff.1 hi).1
      omega
  | hangUp hp shut =>
    refine ⟨{ tidy.faithful with content := nofun }, fun owner' p' hp' hr => ?_, tidy.done⟩
    cases hp.symm.trans hp'
    rw [shut] at hr
    cases hr
  | serve hp h ready => exact tidy.serve hp h ready
  | other other h =>
    have same := upload?_beside hp other h
    exact ⟨tidy.faithful, fun owner' p' hp' => tidy.opened owner' p' (same ▸ hp'),
      fun owner' p' hp' => tidy.done owner' p' (same ▸ hp')⟩

theorem Run.const (run : Run t x es y) :
    y.call = x.call ∧ y.offering = x.offering ∧ y.sender.payload = x.sender.payload ∧
      y.sender.plan = x.sender.plan := by
  induction run with
  | nil => exact ⟨rfl, rfl, rfl, rfl⟩
  | snoc _ h ih =>
    obtain ⟨call_eq, offering_eq, payload_eq, plan_eq⟩ := ih
    cases advance_of_step h with
    | produce m => cases m <;> exact ⟨call_eq, offering_eq, payload_eq, plan_eq⟩
    | send m => cases m <;> exact ⟨call_eq, offering_eq, payload_eq, plan_eq⟩
    | carry | hangUp | serve | other => exact ⟨call_eq, offering_eq, payload_eq, plan_eq⟩

end Exchange

end Strongbox
