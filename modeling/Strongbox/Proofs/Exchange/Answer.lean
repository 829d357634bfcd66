import Strongbox.Proofs.Exchange.Tidy
import Strongbox.Proofs.Sending.Payload
import Strongbox.Proofs.Traffic.Contents

/-!
# What the caller of an upload is told
-/

namespace Strongbox

open Message Ledger

namespace Exchange

variable {σ : Type} [Store σ] {t : Transfer} {c : Client} {owner : Int} {o : Offering}
  {payload : Bytes} {w : Traffic σ} {x₀ x y : Exchange σ} {es es' : List Event}
  {future : List Item} {p : Upload.Pipeline} {r : Receipt} {f : Failure}

/-! ## The beginning -/

omit [Store σ] in
theorem begin_eq_ok (h : begin t c owner o payload w = .ok x₀) :
    Crew.Fits c.poolSize ∧ ∃ plan : Plan,
      plan.size = payload.length ∧ plan.chunkSize = c.chunkSize ∧
      x₀ = { traffic := w.join (.uploading owner (.start t.workers [])), call := w.calls.length
             offering := o, sender := .start payload plan c.poolSize } := by
  unfold begin at h
  cases hp : Plan.make payload.length c.chunkSize with
  | error f =>
    rw [hp] at h
    cases h
  | ok plan =>
    obtain ⟨size_eq, chunkSize_eq⟩ := Plan.make_eq_ok_iff.1 hp
    simp only [hp] at h
    split at h <;> cases h
    exact ⟨‹_›, plan, size_eq, chunkSize_eq, rfl⟩

omit [Store σ] in
theorem upload?_of_begin (h : begin t c owner o payload w = .ok x₀) :
    x₀.upload? = some (owner, .start t.workers []) := by
  obtain ⟨-, plan, -, -, rfl⟩ := begin_eq_ok h
  exact upload?_eq_some_iff.2 List.getElem?_concat_length

omit [Store σ] in
theorem linked_of_begin (h : begin t c owner o payload w = .ok x₀) : x₀.Linked owner where
  here := ⟨_, upload?_of_begin h⟩
  carried_le := by
    obtain ⟨-, plan, -, -, rfl⟩ := begin_eq_ok h
    exact Nat.zero_le _

omit [Store σ] in
theorem tidy_of_begin (h : begin t c owner o payload w = .ok x₀) : x₀.Tidy where
  faithful := by
    obtain ⟨-, plan, -, -, rfl⟩ := begin_eq_ok h
    exact .start payload plan c.poolSize
  opened _ _ _ _ := by
    obtain ⟨-, plan, -, -, rfl⟩ := begin_eq_ok h
    rfl
  done owner' p' hp' hc := by
    cases (upload?_of_begin h).symm.trans hp'
    cases hc

/-- With foresight, the upload begins with all its frames. -/
theorem foreseen_of_begin (h : begin t c owner o payload w = .ok x₀) (future : List Item) :
    Traffic.step t (.offer owner (x₀.items ++ future)) w = some (x₀.foreseen future) := by
  rw [foreseen_eq (upload?_of_begin h)]
  obtain ⟨-, plan, -, -, rfl⟩ := begin_eq_ok h
  simp [Traffic.step, Traffic.join, Traffic.moveTo, Upload.Pipeline.expecting,
    Upload.Pipeline.start]

theorem Run.tidy (run : Run t x es y) (linked : x.Linked owner) (tidy : x.Tidy) :
    y.Linked owner ∧ y.Tidy := by
  induction run with
  | nil => exact ⟨linked, tidy⟩
  | snoc _ h ih =>
    obtain ⟨linked, tidy⟩ := ih
    have advance := advance_of_step h
    exact ⟨(foretold linked advance fun _ => (rfl : ([] : List Item) = [])).1,
      tidy.step linked advance⟩

theorem Run.sending (begun : begin t c owner o payload w = .ok x₀) (run : Run t x₀ es x) :
    ∃ plan : Plan, plan.size = payload.length ∧ plan.chunkSize = c.chunkSize ∧
      x.offering = o ∧ x.sender.payload = payload ∧ x.sender.plan = plan := by
  obtain ⟨-, offering_eq, payload_eq, plan_eq⟩ := run.const
  obtain ⟨-, plan, size_eq, chunkSize_eq, rfl⟩ := begin_eq_ok begun
  exact ⟨plan, size_eq, chunkSize_eq, offering_eq, payload_eq, plan_eq⟩

omit [Store σ] in
theorem Tidy.answer (tidy : x.Tidy) {a : Except Failure Receipt} (h : x.answer? = some a) :
    ∃ user p v, x.upload? = some (user, p) ∧ p.front = .finished v ∧
      a = (v.map (·.receipt)).mapError fun f => Client.failure (.failed f.status) := by
  unfold answer? at h
  split at h
  · rename_i user p sent hp hsent
    split at h
    · rename_i u hf
      refine ⟨user, p, _, hp, hf, ?_⟩
      have content := (tidy.done user p hp (by rw [hf]; rfl)).2.1
      unfold Sending.Sender.verdict? at hsent
      split at hsent
      · rw [content] at hsent
        cases hsent
        cases h
        rfl
      · cases hsent
    · rename_i f hf
      cases h
      exact ⟨user, p, _, hp, hf, rfl⟩
    · cases h
  · cases h

omit [Store σ] in
/-- If the caller is told of a file, the server has accepted the upload. -/
theorem Tidy.accepted (tidy : x.Tidy) {r : Receipt} (h : x.answer? = some (.ok r)) :
    ∃ user p u, x.upload? = some (user, p) ∧ p.front = .finished (.ok u) ∧ r = u.receipt := by
  obtain ⟨user, p, v, hp, hf, hv⟩ := tidy.answer h
  cases v with
  | ok u => exact ⟨user, p, u, hp, hf, Except.ok.inj hv⟩
  | error f => cases hv

omit [Store σ] in
/-- If the caller is told of a failure, the server has turned the upload away. -/
theorem Tidy.refused (tidy : x.Tidy) (h : x.answer? = some (.error f)) :
    ∃ user p g, x.upload? = some (user, p) ∧ p.front = .finished (.error g) := by
  obtain ⟨user, p, v, hp, hf, hv⟩ := tidy.answer h
  cases v with
  | ok u => cases hv
  | error g => exact ⟨user, p, g, hp, hf⟩

/-! ## Where an upload stands -/

section Placed

variable [Ledger σ] [LawfulStore σ] {s₀ : σ} {es₀ : List Traffic.Event}

/-- An upload stands where it should, by the frames that were sent and those that are still to
come. -/
theorem Run.placed (sound : Sound s₀) (empty : files s₀ = [])
    (before : Traffic.Run t ⟨s₀, []⟩ es₀ w) (begun : begin t c owner o payload w = .ok x₀)
    (run : Run t x₀ es x) (known : x.sender.deserted = true → future = []) :
    ∃ es' p, Traffic.Run t w es' (x.foreseen future) ∧ x.upload? = some (owner, p) ∧
      Upload.Inv t.key owner (x.items ++ future) x.traffic.store
        (p.expecting (x.items.drop x.carried ++ future)) := by
  obtain ⟨linked, future', es', known', items_eq, run'⟩ :=
    run.foreseen (linked_of_begin begun) known
  have offered := foreseen_of_begin begun future'
  have started := Traffic.Run.nil.snoc offered
  have here₀ := upload?_of_begin begun
  have hn : (x₀.foreseen future').calls[x.call]? =
      some (.uploading owner (.start t.workers (x₀.items ++ future'))) := by
    rw [run.const.1, getElem?_foreseen here₀]
    obtain ⟨-, plan, -, -, rfl⟩ := begin_eq_ok begun
    rfl
  have inv₀ := Upload.Inv.start t.key owner t.workers (x₀.items ++ future')
    (x₀.foreseen future').store
  obtain ⟨q, hq, inv⟩ := (before.append started).stays sound empty hn inv₀ run'
  obtain ⟨p, hp⟩ := linked.here
  refine ⟨_, p, started.append run', hp, ?_⟩
  rw [getElem?_foreseen hp] at hq
  cases hq
  rwa [items_eq, store_foreseen] at inv

/-- An upload stands where it should, by the frames that were sent so far. -/
theorem Run.stands (sound : Sound s₀) (empty : files s₀ = [])
    (before : Traffic.Run t ⟨s₀, []⟩ es₀ w) (begun : begin t c owner o payload w = .ok x₀)
    (run : Run t x₀ es x) :
    ∃ es' p, Traffic.Run t w es' (x.foreseen []) ∧ x.upload? = some (owner, p) ∧
      Upload.Inv t.key owner x.items x.traffic.store (p.expecting (x.items.drop x.carried)) := by
  have known : x.sender.deserted = true → ([] : List Item) = [] := fun _ => rfl
  simpa only [List.append_nil] using run.placed sound empty before begun known

/-- The file that an upload has made holds the payload. -/
structure Arrived (key : Key) (owner : Int) (o : Offering) (payload : Bytes) (s : σ) (file : Int)
    (plan : Plan) : Prop where
  size_eq : plan.size = payload.length
  fits : Sending.Fits plan
  held : Upload.Held key owner ⟨Upload.draftOf (Sending.metadata plan o), plan⟩ file true s
    (plan.pieces payload)

/-- If the caller is told of a file, the file holds the payload. -/
theorem Run.accepted (sound : Sound s₀) (empty : files s₀ = [])
    (before : Traffic.Run t ⟨s₀, []⟩ es₀ w) (small : c.chunkSize < Word.count32)
    (begun : begin t c owner o payload w = .ok x₀) (run : Run t x₀ es x)
    (answered : x.answer? = some (.ok r)) :
    ∃ plan file p, Arrived t.key owner o payload x.traffic.store file plan ∧
      r = ⟨Int64.ofInt file, Int64.ofNat payload.length, "success"⟩ ∧
      x.upload? = some (owner, p) ∧ p.front.charge? = some file := by
  obtain ⟨es', p, -, hp, inv⟩ := run.stands sound empty before begun
  obtain ⟨-, tidy⟩ := run.tidy (linked_of_begin begun) (tidy_of_begin begun)
  obtain ⟨plan, size_eq, chunkSize_eq, offering_eq, payload_eq, plan_eq⟩ := run.sending begun
  obtain ⟨user, q, u, hq, hf, rfl⟩ := tidy.accepted answered
  cases hp.symm.trans hq
  cases inv with
  | done hf' still passed held bytes =>
    cases hf.symm.trans hf'
    have cut := tidy.faithful.sent
    rw [payload_eq, plan_eq] at cut
    have stream : x.items =
        .ok (.metadata (Sending.metadata plan o)) :: Upload.itemsOf x.sender.sent := by
      rw [items, plan_eq, offering_eq]
      rfl
    rw [stream] at passed
    obtain ⟨rfl, fits, perm⟩ := Sending.pieces_of_passed (chunkSize_eq ▸ small) cut passed
    refine ⟨plan, u.file, p, ⟨size_eq, fits, held.perm perm⟩, ?_, hp, by rw [hf]; rfl⟩
    show Receipt.mk (Int64.ofInt u.file) (Int64.ofNat u.bytesReceived) "success" = _
    rw [bytes, size_eq]
  | opening hf' | creating hf' | completing hf' | purging hf' | failed hf' =>
    cases hf.symm.trans hf'
  | working work =>
    have at_work := work.at_work
    rw [show (p.expecting _).front = p.front from rfl, hf] at at_work
    cases at_work

/-- If the caller is told of a failure, nothing is left of any file that the upload has worked
on. -/
theorem Run.refused (sound : Sound s₀) (empty : files s₀ = [])
    (before : Traffic.Run t ⟨s₀, []⟩ es₀ w) (begun : begin t c owner o payload w = .ok x₀)
    (run : Run t x₀ es y) (run' : Run t y es' x) (answered : x.answer? = some (.error f))
    {user file : Int} (hp : y.upload? = some (user, p)) (hfile : p.front.file? = some file) :
    record? x.traffic.store file = none ∧ rows x.traffic.store file = [] := by
  obtain ⟨linked, tidy⟩ := run.tidy (linked_of_begin begun) (tidy_of_begin begun)
  obtain ⟨-, tidy'⟩ := run'.tidy linked tidy
  obtain ⟨user', q, g, hq, hf⟩ := tidy'.refused answered
  have none_later : x.sender.deserted = true → ([] : List Item) = [] := fun _ => rfl
  obtain ⟨-, future, es₂, known, -, after⟩ := run'.foreseen linked none_later
  obtain ⟨es₁, -, upTo, -⟩ := run.placed sound empty before begun known
  have upTo := before.append upTo
  have orderly := (upTo.append after).orderly_of_empty sound empty
  have gone : record? x.traffic.store file = none := by
    cases hr : record? x.traffic.store file with
    | none => rfl
    | some r =>
      rw [← store_foreseen x []] at hr
      obtain ⟨k, user'', u, hk, hu⟩ := orderly.kept hr
      have same := upTo.charge_unique sound empty (getElem?_foreseen hp future)
        (Upload.charge?_of_file? hfile) after hk hu
      rw [same, ← run'.const.1, getElem?_foreseen hq] at hk
      cases hk
      rw [show (q.expecting _).front = q.front from rfl, hf] at hu
      cases hu
  exact ⟨gone, LawfulStore.rows_of_missing (store_foreseen x [] ▸ orderly.sound) gone⟩

end Placed

end Exchange

end Strongbox
