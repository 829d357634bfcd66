import Strongbox.Exchange
import Strongbox.Proofs.Traffic
import Strongbox.Proofs.Sending

/-!
# An exchange seen with foresight

What the sender of an upload will still send makes no difference to what has happened so far. So an
exchange is traffic in which the upload has had all its frames from the beginning.
-/

namespace Strongbox

open Message

namespace Upload

variable {σ : Type} [Store σ] {key : Key} {owner : Int} {now : Moment} {m : Move} {s t : σ}
  {p q : Pipeline} {extra : List Item}

def Pipeline.expecting (p : Pipeline) (extra : List Item) : Pipeline :=
  { p with inbound := p.inbound ++ extra }

@[simp] theorem Pipeline.expecting_nil (p : Pipeline) : p.expecting [] = p := by
  simp [Pipeline.expecting]

theorem workerMove_expecting {n : Nat} {iv : Option Nonce} (h : WorkerMove key n iv s p t q)
    (extra : List Item) : WorkerMove key n iv s (p.expecting extra) t (q.expecting extra) := by
  cases h with
  | idle m => exact .idle m
  | drop hw ha => exact .drop hw ha
  | begin hw ha => exact .begin hw ha
  | store hw hf hs => exact .store hw hf hs
  | fail hw hf hs => exact .fail hw hf hs
  | report hw room => exact .report hw room

theorem accumulatorMove_expecting (h : AccumulatorMove p q) (extra : List Item) :
    AccumulatorMove (p.expecting extra) (q.expecting extra) := by
  cases h with
  | add hr => exact .add hr
  | pass hr hf => exact .pass hr hf
  | stop hr hf => exact .stop hr hf
  | leave hr hc gone hd => exact .leave hr hc gone hd

/-- A front that does not wait for a frame moves alike when more are to come. -/
theorem frontMove_expecting (h : FrontMove owner now s p t q) (busy : p.awaits = false)
    (extra : List Item) : FrontMove owner now s (p.expecting extra) t (q.expecting extra) := by
  have opening : p.front = .opening → ∃ item rest, p.inbound = item :: rest := by
    intro hf
    cases hi : p.inbound with
    | nil => simp [Pipeline.awaits, hf, hi] at busy
    | cons item rest => exact ⟨item, rest, rfl⟩
  have head : p.front = .opening → (p.expecting extra).inbound.head? = p.inbound.head? := by
    intro hf
    obtain ⟨item, rest, hi⟩ := opening hf
    simp [Pipeline.expecting, hi]
  have tail : p.front = .opening → (p.expecting extra).inbound.tail = p.inbound.tail ++ extra := by
    intro hf
    obtain ⟨item, rest, hi⟩ := opening hf
    simp [Pipeline.expecting, hi]
  cases h with
  | @accept o hf ho =>
    have move : FrontMove owner now s (p.expecting extra) s { p.expecting extra with
        front := .creating o, inbound := (p.expecting extra).inbound.tail } :=
      .accept hf ((head hf).symm ▸ ho)
    rwa [tail hf] at move
  | @refuse f hf ho =>
    have move : FrontMove owner now s (p.expecting extra) s { p.expecting extra with
        front := .finished (.error f), phase := .failed,
        inbound := (p.expecting extra).inbound.tail } :=
      .refuse hf ((head hf).symm ▸ ho)
    rwa [tail hf] at move
  | create hf hs => exact .create hf hs
  | miss hf hs => exact .miss hf hs
  | heed hf hs => exact .heed hf hs
  | rest hf hs hi => simp [Pipeline.awaits, hf, hs, hi] at busy
  | receive hf hs hi ht => exact .receive hf hs (congrArg (· ++ extra) hi) ht
  | @reject job item others f hf hs hi ht =>
    have move : FrontMove owner now s (p.expecting extra) s
        ({ p.expecting extra with inbound := others ++ extra }.close job (some f)) :=
      .reject hf hs (congrArg (· ++ extra) hi) ht
    exact move
  | enqueue hf room => exact .enqueue hf room
  | doom hf gone hd hfail => exact .doom hf gone hd hfail
  | pass hf gone hd hs hr => exact .pass hf gone hd hs hr
  | lack hf gone hd hs hr => exact .lack hf gone hd hs hr
  | complete hf hs => exact .complete hf hs
  | spoil hf hs => exact .spoil hf hs
  | purge hf hs => exact .purge hf hs
  | leave hf hs => exact .leave hf hs

/-- Frames that are still to come do not change a move, unless the front waits for them. -/
theorem step_expecting (h : step key owner now m s p = some (t, q))
    (known : m.isFront = true → p.awaits = true → extra = []) :
    step key owner now m s (p.expecting extra) = some (t, q.expecting extra) := by
  cases m with
  | worker n iv =>
    exact stepWorker_eq_some_iff.2 (workerMove_expecting (stepWorker_eq_some_iff.1 h) extra)
  | accumulator =>
    obtain ⟨r, hr, heq⟩ := Option.map_eq_some_iff.1 h
    cases heq
    have move := accumulatorMove_expecting (stepAccumulator_eq_some_iff.1 hr) extra
    rw [step, stepAccumulator_eq_some_iff.2 move]
    rfl
  | front =>
    cases busy : p.awaits with
    | false =>
      have move := frontMove_expecting (stepFront_eq_some_iff.1 h) busy extra
      exact stepFront_eq_some_iff.2 move
    | true =>
      rw [known rfl busy, Pipeline.expecting_nil, Pipeline.expecting_nil]
      exact h

end Upload

namespace Exchange

variable {σ : Type} {x y : Exchange σ} {owner : Int} {p : Upload.Pipeline} {future : List Item}

/-- The traffic of an exchange, with the frames at hand that are still to be carried across and
those that are still to come. -/
def foreseen (x : Exchange σ) (future : List Item) : Traffic σ :=
  match x.upload? with
  | some (owner, p) => x.traffic.moveTo x.call x.traffic.store
      (.uploading owner (p.expecting (x.items.drop x.carried ++ future)))
  | none => x.traffic

theorem upload?_eq_some_iff :
    x.upload? = some (owner, p) ↔ x.traffic.calls[x.call]? = some (.uploading owner p) := by
  unfold upload?
  split <;> grind

theorem upload?_of_moveTo {s : σ} {q : Upload.Pipeline} (hp : x.upload? = some (owner, p))
    (call_eq : y.call = x.call)
    (traffic_eq : y.traffic = x.traffic.moveTo x.call s (.uploading owner q)) :
    y.upload? = some (owner, q) := by
  rw [upload?_eq_some_iff, call_eq, traffic_eq,
    Traffic.getElem?_moveTo (upload?_eq_some_iff.1 hp), if_pos rfl]

theorem foreseen_eq (h : x.upload? = some (owner, p)) :
    x.foreseen future = x.traffic.moveTo x.call x.traffic.store
      (.uploading owner (p.expecting (x.items.drop x.carried ++ future))) := by
  rw [foreseen, h]

theorem getElem?_foreseen (hp : x.upload? = some (owner, p)) (future : List Item) :
    (x.foreseen future).calls[x.call]? =
      some (.uploading owner (p.expecting (x.items.drop x.carried ++ future))) := by
  rw [foreseen_eq hp, Traffic.getElem?_moveTo (upload?_eq_some_iff.1 hp), if_pos rfl]

@[simp] theorem store_foreseen (x : Exchange σ) (future : List Item) :
    (x.foreseen future).store = x.traffic.store := by
  unfold foreseen
  split <;> rfl

/-- The upload is among the calls, and no item has been carried across that was not sent. -/
structure Linked (owner : Int) (x : Exchange σ) : Prop where
  here : ∃ p, x.upload? = some (owner, p)
  carried_le : x.carried ≤ x.items.length

variable [Store σ] {t : Transfer} {e : Event} {es : List Event}

/-- What can come of an event, one case for each. -/
inductive Advance (t : Transfer) (x : Exchange σ) : Exchange σ → Prop where
  | produce {s : Sending.Sender} (m : Sending.ProducerMove x.sender s) :
      Advance t x { x with sender := s }
  | send {n : Nat} {s : Sending.Sender} (m : Sending.WorkerMove x.sender n s) :
      Advance t x { x with sender := s }
  | carry {item : Item} {owner : Int} {p : Upload.Pipeline} (hp : x.upload? = some (owner, p))
      (hi : x.items[x.carried]? = some item) :
      Advance t x { x with
        traffic := x.traffic.moveTo x.call x.traffic.store
          (.uploading owner { p with inbound := p.inbound ++ [item] })
        sender := { x.sender with unread := x.sender.unread - 1 }
        carried := x.carried + 1 }
  | hangUp {owner : Int} {p : Upload.Pipeline} (hp : x.upload? = some (owner, p))
      (shut : p.front.reads = false) :
      Advance t x { x with sender := { x.sender with hungUp := true, unread := 0 } }
  | serve {now : Moment} {m : Upload.Move} {owner : Int} {p q : Upload.Pipeline} {s : σ}
      (hp : x.upload? = some (owner, p))
      (h : Upload.step t.key owner now m x.traffic.store p = some (s, q))
      (ready : m.isFront = true → p.awaits = true → x.ended = true) :
      Advance t x { x with traffic := x.traffic.moveTo x.call s (.uploading owner q) }
  | other {e : Traffic.Event} {w : Traffic σ} (other : e.call? ≠ some x.call)
      (h : Traffic.step t e x.traffic = some w) : Advance t x { x with traffic := w }

theorem advance_of_step (h : step t e x = some y) : Advance t x y := by
  cases e with
  | produce =>
    obtain ⟨s, hs, rfl⟩ := Option.map_eq_some_iff.1 h
    exact .produce (Sending.stepProducer_eq_some_iff.1 hs)
  | send n =>
    obtain ⟨s, hs, rfl⟩ := Option.map_eq_some_iff.1 h
    exact .send (Sending.stepWorker_eq_some_iff.1 hs)
  | carry =>
    simp only [step] at h
    split at h
    · rename_i hi hp hs
      cases h
      simp only [Sending.step] at hs
      split at hs <;> cases hs
      exact .carry hp hi
    · cases h
  | hangUp =>
    simp only [step] at h
    split at h
    · rename_i hp
      split at h
      · cases h
      · rename_i shut
        obtain ⟨s, hs, rfl⟩ := Option.map_eq_some_iff.1 h
        simp only [Sending.step] at hs
        split at hs <;> cases hs
        exact .hangUp hp (Bool.not_eq_true _ ▸ shut)
    · cases h
  | serve now m =>
    simp only [step] at h
    split at h
    · rename_i owner p hp
      split at h
      · cases h
      · rename_i ready
        obtain ⟨w, hw, rfl⟩ := Option.map_eq_some_iff.1 h
        simp only [Traffic.step, upload?_eq_some_iff.1 hp] at hw
        obtain ⟨⟨s, q⟩, hstep, rfl⟩ := Option.map_eq_some_iff.1 hw
        refine .serve hp hstep ?_
        intro hm ha
        simpa [hm, ha] using ready
    · cases h
  | other e =>
    simp only [step] at h
    split at h
    · cases h
    · obtain ⟨w, hw, rfl⟩ := Option.map_eq_some_iff.1 h
      exact .other ‹_› hw

/-- What else happens in the traffic leaves the upload where it is. -/
theorem upload?_beside {e : Traffic.Event} {w : Traffic σ} (hp : x.upload? = some (owner, p))
    (other : e.call? ≠ some x.call) (h : Traffic.step t e x.traffic = some w) :
    ({ x with traffic := w } : Exchange σ).upload? = x.upload? := by
  obtain ⟨lt, -⟩ := List.getElem?_eq_some_iff.1 (upload?_eq_some_iff.1 hp)
  simp only [upload?, Traffic.calls_beside h other lt]

/-- The traffic with foresight keeps up with an exchange: what the earlier state will still see is
what the later one will, and what has come in between. -/
def Foretold (t : Transfer) (x y : Exchange σ) (future : List Item) : Prop :=
  ∃ future', (x.sender.deserted = true → future' = []) ∧ x.items ++ future' = y.items ++ future ∧
    (y.foreseen future = x.foreseen future' ∨
      ∃ e', Traffic.step t e' (x.foreseen future') = some (y.foreseen future))

/-- The sender is elsewhere, and has put nothing into the stream. -/
theorem foretold_silent {s : Sending.Sender} (linked : x.Linked owner)
    (sent : s.sent = x.sender.sent) (plan : s.plan = x.sender.plan)
    (known : x.sender.deserted = true → future = []) :
    ({ x with sender := s } : Exchange σ).Linked owner ∧
      Foretold t x { x with sender := s } future := by
  have items_eq : ({ x with sender := s } : Exchange σ).items = x.items := by
    simp only [items, sent, plan]
  refine ⟨⟨linked.here, items_eq ▸ linked.carried_le⟩, future, known, by rw [items_eq], .inl ?_⟩
  simp only [foreseen, items_eq]
  rfl

theorem foretold_put {s : Sending.Sender} {c : Message.Chunk} (linked : x.Linked owner)
    (sent : s.sent = x.sender.sent ++ [c]) (plan : s.plan = x.sender.plan)
    (present : x.sender.deserted = false) :
    ({ x with sender := s } : Exchange σ).Linked owner ∧
      Foretold t x { x with sender := s } future := by
  obtain ⟨p, hp⟩ := linked.here
  have le := linked.carried_le
  have items_eq : ({ x with sender := s } : Exchange σ).items = x.items ++ [.ok (.chunk c)] := by
    simp [items, sent, plan]
  refine ⟨⟨⟨p, hp⟩, ?_⟩, .ok (.chunk c) :: future, by simp [present], ?_, .inl ?_⟩
  · rw [items_eq, List.length_append]
    exact Nat.le_add_right_of_le le
  · rw [items_eq, List.append_assoc]
    rfl
  · have here : ({ x with sender := s } : Exchange σ).upload? = some (owner, p) := hp
    rw [foreseen_eq hp, foreseen_eq here, items_eq, List.drop_append_of_le_length le,
      List.append_assoc]
    rfl

theorem foretold_send {n : Nat} {s : Sending.Sender} (linked : x.Linked owner)
    (m : Sending.WorkerMove x.sender n s) :
    ({ x with sender := s } : Exchange σ).Linked owner ∧
      Foretold t x { x with sender := s } future := by
  have here := Crew.deserted_eq_false_iff.2 ⟨n, m.present⟩
  cases m with
  | idle | stop | cut | stray | lose => exact foretold_silent linked rfl rfl (by simp [here])
  | send => exact foretold_put linked rfl rfl here

theorem foretold_carry {item : Item} (hp : x.upload? = some (owner, p))
    (hi : x.items[x.carried]? = some item) (known : x.sender.deserted = true → future = []) :
    let q := { p with inbound := p.inbound ++ [item] }
    let y : Exchange σ := { x with
      traffic := x.traffic.moveTo x.call x.traffic.store (.uploading owner q)
      sender := { x.sender with unread := x.sender.unread - 1 }
      carried := x.carried + 1 }
    y.Linked owner ∧ Foretold t x y future := by
  intro q y
  obtain ⟨lt, item_eq⟩ := List.getElem?_eq_some_iff.1 hi
  have items_eq : y.items = x.items := rfl
  have here : y.upload? = some (owner, q) := upload?_of_moveTo hp rfl rfl
  refine ⟨⟨⟨q, here⟩, lt⟩, future, known, rfl, .inl ?_⟩
  rw [foreseen_eq hp, foreseen_eq here, items_eq]
  have dropped : x.items.drop x.carried = item :: x.items.drop (x.carried + 1) := by
    rw [List.drop_eq_getElem_cons lt, item_eq]
  have behind : q.expecting (x.items.drop (x.carried + 1) ++ future) =
      p.expecting (x.items.drop x.carried ++ future) := by
    simp [q, Upload.Pipeline.expecting, dropped]
  show (x.traffic.moveTo x.call x.traffic.store _).moveTo x.call x.traffic.store
    (.uploading owner (q.expecting (x.items.drop (x.carried + 1) ++ future))) = _
  rw [behind, Traffic.moveTo_moveTo]

theorem foretold_serve {now : Moment} {m : Upload.Move} {s : σ} {q : Upload.Pipeline}
    (linked : x.Linked owner) (hp : x.upload? = some (owner, p))
    (h : Upload.step t.key owner now m x.traffic.store p = some (s, q))
    (known : x.sender.deserted = true → future = [])
    (ready : m.isFront = true → p.awaits = true → x.ended = true) :
    let y : Exchange σ := { x with traffic := x.traffic.moveTo x.call s (.uploading owner q) }
    y.Linked owner ∧ Foretold t x y future := by
  intro y
  have here : y.upload? = some (owner, q) := upload?_of_moveTo hp rfl rfl
  refine ⟨⟨⟨q, here⟩, linked.carried_le⟩, future, known, rfl, .inr ⟨.upload x.call now m, ?_⟩⟩
  have none_left : m.isFront = true → p.awaits = true → x.items.drop x.carried ++ future = [] := by
    intro hm ha
    have ended := ready hm ha
    simp only [Exchange.ended, Bool.and_eq_true, beq_iff_eq] at ended
    rw [known ended.1, ended.2, List.drop_length]
    rfl
  rw [foreseen_eq hp, foreseen_eq here]
  simp only [Traffic.step, Traffic.getElem?_moveTo (upload?_eq_some_iff.1 hp), if_true]
  rw [show (x.traffic.moveTo x.call x.traffic.store _).store = x.traffic.store from rfl,
    Upload.step_expecting h none_left, Option.map_some, Traffic.moveTo_moveTo]
  exact congrArg some (Traffic.moveTo_moveTo _ _ _ _ _ _).symm

/-- The traffic with foresight keeps up with an exchange. -/
theorem foretold (linked : x.Linked owner) (h : Advance t x y)
    (known : y.sender.deserted = true → future = []) : y.Linked owner ∧ Foretold t x y future := by
  obtain ⟨p, hp⟩ := linked.here
  cases h with
  | produce m => cases m <;> exact foretold_silent linked rfl rfl known
  | send m => exact foretold_send linked m
  | carry hp' hi =>
    cases hp.symm.trans hp'
    exact foretold_carry hp hi known
  | hangUp hp' shut => exact foretold_silent linked rfl rfl known
  | serve hp' h ready =>
    cases hp.symm.trans hp'
    exact foretold_serve linked hp h known ready
  | @other e w other h =>
    have hcall := upload?_eq_some_iff.1 hp
    obtain ⟨lt, -⟩ := List.getElem?_eq_some_iff.1 hcall
    have here := (upload?_beside hp other h).trans hp
    refine ⟨⟨⟨p, here⟩, linked.carried_le⟩, future, known, rfl, .inr ⟨e, ?_⟩⟩
    rw [foreseen_eq hp, foreseen_eq here]
    exact Traffic.step_beside h other lt

theorem Run.append {z : Exchange σ} {es' : List Event} (run : Run t x es y) (run' : Run t y es' z) :
    Run t x (es ++ es') z := by
  induction run' with
  | nil => simpa using run
  | snoc _ h ih =>
    rw [← List.append_assoc]
    exact ih.snoc h

/-- Events that can all happen, one after another, are a row. -/
theorem Run.of_foldlM (h : es.foldlM (fun x e => step t e x) x = some y) : Run t x es y := by
  induction es generalizing x with
  | nil =>
    cases h
    exact .nil
  | cons e es ih =>
    obtain ⟨z, hz, h⟩ := Option.bind_eq_some_iff.1 h
    exact (Run.nil.snoc hz).append (ih h)

/-- What an exchange leads to, traffic with foresight leads to as well. -/
theorem Run.foreseen (run : Run t x es y) (linked : x.Linked owner)
    (known : y.sender.deserted = true → future = []) :
    y.Linked owner ∧ ∃ future' es', (x.sender.deserted = true → future' = []) ∧
      x.items ++ future' = y.items ++ future ∧
      Traffic.Run t (x.foreseen future') es' (y.foreseen future) := by
  -- What is still to come is known at the end of the run only, so it varies with the run.
  induction run generalizing future with
  | nil => exact ⟨linked, future, [], known, rfl, .nil⟩
  | @snoc y z es e run h ih =>
    have advance := advance_of_step h
    have here := (ih fun _ => (rfl : ([] : List Item) = [])).1
    obtain ⟨linked', later, known', items_eq, kept⟩ := foretold here advance known
    obtain ⟨-, future', es', known'', items_eq', run'⟩ := ih known'
    refine ⟨linked', future', ?_⟩
    rcases kept with same | ⟨e', h'⟩
    · exact ⟨es', known'', items_eq'.trans items_eq, same ▸ run'⟩
    · exact ⟨_, known'', items_eq'.trans items_eq, run'.snoc h'⟩

end Exchange

end Strongbox
