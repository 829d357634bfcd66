import Strongbox.Proofs.Exchange.Answer
import Strongbox.Proofs.Traffic.Lasting

/-!
# How long an uploaded file lasts
-/

namespace Strongbox.Exchange

open Ledger Message

variable {σ : Type} [Store σ] {t : Transfer} {c : Client} {owner : Int} {o : Offering}
  {payload : Bytes} {w : Traffic σ} {x₀ x y : Exchange σ} {es es' : List Event} {e : Event}
  {user file : Int}

def Deleted (t : Transfer) (x : Exchange σ) (es : List Event) (owner file : Int) : Prop :=
  ∃ es₁ es₂ y s, es = es₁ ++ .other (.delete owner file) :: es₂ ∧ Run t x es₁ y ∧
    Store.delete y.traffic.store owner file = .ok s

theorem Deleted.snoc (h : Deleted t x es owner file) : Deleted t x (es ++ [e]) owner file := by
  obtain ⟨es₁, es₂, y, s, rfl, run, hs⟩ := h
  exact ⟨es₁, es₂ ++ [e], y, s, by simp, run, hs⟩

theorem Deleted.last {s : σ} (run : Run t x es y)
    (h : Store.delete y.traffic.store owner file = .ok s) :
    Deleted t x (es ++ [.other (.delete owner file)]) owner file :=
  ⟨es, [], y, s, rfl, run, h⟩

/-- What is told of a file is what was said of the payload. -/
structure Told (d : FileDetails) (o : Offering) (payload : Bytes) : Prop where
  filename_eq : d.filename = o.filename
  mimeType_eq : d.mimeType = o.mimeType
  description_eq : d.description = o.description
  size_eq : d.size.toInt = payload.length
  labels_eq : d.labels.map (fun l => (l.name, l.value)) = o.labels

theorem traffic_of_step (h : step t e x = some y) :
    y.traffic.store = x.traffic.store ∨ ∃ e', Traffic.step t e' x.traffic = some y.traffic ∧
      ∀ user file, e' = .delete user file → e = .other e' := by
  cases e with
  | produce | send n =>
    obtain ⟨s, -, rfl⟩ := Option.map_eq_some_iff.1 h
    exact .inl rfl
  | carry =>
    simp only [step] at h
    split at h <;> cases h
    exact .inl rfl
  | hangUp =>
    simp only [step] at h
    split at h
    · split at h
      · cases h
      · obtain ⟨s, -, rfl⟩ := Option.map_eq_some_iff.1 h
        exact .inl rfl
    · cases h
  | serve now m =>
    simp only [step] at h
    split at h
    · split at h
      · cases h
      · obtain ⟨w, hw, rfl⟩ := Option.map_eq_some_iff.1 h
        refine .inr ⟨_, hw, ?_⟩
        intro user file same
        cases same
    · cases h
  | other e =>
    simp only [step] at h
    split at h
    · cases h
    · obtain ⟨w, hw, rfl⟩ := Option.map_eq_some_iff.1 h
      exact .inr ⟨e, hw, fun _ _ _ => rfl⟩

variable [Ledger σ] [LawfulStore σ] {s s₀ : σ} {es₀ : List Traffic.Event}

/-- The owner of a file that is there is told what was said of the payload. -/
theorem Arrived.inform {key : Key} {plan : Plan} (arrived : Arrived key owner o payload s file plan)
    (sound : Sound s) (keeps : ∀ plan, Keeps σ (Upload.draftOf (Sending.metadata plan o)))
    (visible : ∀ r, record? s file = some r → r.isDeleted = false) :
    ∃ d, Service.inform owner file s = .ok d ∧ Told d o payload := by
  obtain ⟨r, hr, declares, complete⟩ := arrived.held.record
  have tells := declares.tells (keeps plan)
  have shown := LawfulStore.info_live sound (live?_eq_some_iff.2 ⟨hr, visible r hr⟩)
  rw [declares.owner_eq] at shown
  have available : r.isAvailable = true := Record.isAvailable_iff.2 ⟨complete, visible r hr⟩
  refine ⟨r.details, ?_, tells.filename_eq, tells.mimeType_eq, tells.description_eq, ?_, ?_⟩
  · simp only [Service.inform, shown]
    exact if_pos available
  · show (Int64.ofNat r.originalSize).toInt = payload.length
    rw [declares.originalSize_eq, Word.toInt_ofNat64 arrived.fits.size_le, arrived.size_eq]
  · show (r.labels.map Label.message).map (fun l => (l.name, l.value)) = o.labels
    rw [List.map_map]
    refine tells.labels_eq.trans ?_
    simp only [Upload.draftOf, Sending.metadata, List.map_map]
    exact List.map_id _

variable (sound : Sound s₀) (empty : files s₀ = []) (before : Traffic.Run t ⟨s₀, []⟩ es₀ w)
  (begun : begin t c owner o payload w = .ok x₀)

include sound empty before begun

theorem Run.steady (run : Run t x₀ es x) :
    Sound x.traffic.store ∧
      ∀ (n : Nat) (user : Int) (p : Upload.Pipeline) (job : Upload.Job),
        x.traffic.calls[n]? = some (.uploading user p) → p.front = .completing job →
          p.tally ≤ Word.maxInt64 := by
  obtain ⟨es', p, run', hp, inv⟩ := run.stands sound empty before begun
  have orderly := (before.append run').orderly_of_empty sound empty
  refine ⟨store_foreseen x [] ▸ orderly.sound, ?_⟩
  intro n user q job hn hf
  by_cases here : n = x.call
  · rw [here, upload?_eq_some_iff.1 hp] at hn
    cases hn
    exact inv.tally_le hf
  · have same : (x.foreseen []).calls[n]? = some (.uploading user q) := by
      rw [foreseen_eq hp, Traffic.getElem?_moveTo (upload?_eq_some_iff.1 hp), if_neg here, hn]
    obtain ⟨frames, -, inv⟩ := orderly.stands same
    exact inv.tally_le hf

/-- A file that was not deleted in the beginning has been deleted by its owner, if at all. -/
theorem Run.deleted (run : Run t x₀ es x)
    (visible : ∀ r, record? x₀.traffic.store file = some r → r.isDeleted = false) {r : Record}
    (hr : record? x.traffic.store file = some r) (deleted : r.isDeleted = true) :
    Deleted t x₀ es r.owner file := by
  induction run with
  | nil =>
    rw [visible r hr] at deleted
    cases deleted
  | @snoc y z es e run h ih =>
    obtain ⟨sound', fits⟩ := run.steady sound empty before begun
    rcases traffic_of_step h with same | ⟨e', h', told⟩
    · exact (ih (same ▸ hr)).snoc
    · rcases Traffic.deleted_of_step sound' fits h' hr deleted with old | ⟨rfl, s, hs⟩
      · exact (ih old).snoc
      · exact told _ _ rfl ▸ .last run hs

theorem Run.fresh (run : Run t x₀ es x) {p : Upload.Pipeline} (hp : x.upload? = some (user, p))
    (hc : p.front.charge? = some file) : record? x₀.traffic.store file = none := by
  obtain ⟨es', p', run', hp', -⟩ := run.stands sound empty before begun
  obtain ⟨-, plan, -, -, rfl⟩ := begin_eq_ok begun
  show record? w.store file = none
  cases hr : record? w.store file with
  | none => rfl
  | some r =>
    obtain ⟨k, user', q, hk, hq⟩ := (before.orderly_of_empty sound empty).kept hr
    have same := before.charge_unique sound empty hk hq run' (getElem?_foreseen hp []) hc
    obtain ⟨lt, -⟩ := List.getElem?_eq_some_iff.1 hk
    have call_eq : x.call = w.calls.length := run.const.1
    omega

/-- When the caller is told of a file, nothing is left to be carried across, so all that has
happened is traffic. -/
theorem Run.traffic (run : Run t x₀ es x) {r : Receipt} (answered : x.answer? = some (.ok r)) :
    ∃ es', Traffic.Run t w es' x.traffic := by
  obtain ⟨es', p, run', hp, -⟩ := run.stands sound empty before begun
  obtain ⟨-, tidy⟩ := run.tidy (linked_of_begin begun) (tidy_of_begin begun)
  obtain ⟨user, q, u, hq, hf, -⟩ := tidy.accepted answered
  cases hp.symm.trans hq
  have all := (tidy.done owner p hp (by rw [hf]; rfl)).2.2
  have same : x.foreseen [] = x.traffic := by
    rw [foreseen_eq hp, all, List.drop_length, List.append_nil, Upload.Pipeline.expecting_nil]
    exact Traffic.moveTo_self (upload?_eq_some_iff.1 hp)
  exact ⟨es', same ▸ run'⟩

/-- A file that the caller is told of holds the payload, and it is there until its owner deletes
it. -/
theorem Run.lasting (run : Run t x₀ es x) (small : c.chunkSize < Word.count32) {r : Receipt}
    (answered : x.answer? = some (.ok r)) :
    ∃ plan file, Arrived t.key owner o payload x.traffic.store file plan ∧
      r = ⟨Int64.ofInt file, Int64.ofNat payload.length, "success"⟩ ∧
      (¬Deleted t x₀ es owner file →
        ∀ r, record? x.traffic.store file = some r → r.isDeleted = false) := by
  obtain ⟨plan, file, p, arrived, hr, hp, hc⟩ :=
    run.accepted sound empty before small begun answered
  have fresh := run.fresh sound empty before begun hp hc
  refine ⟨plan, file, arrived, hr, ?_⟩
  intro kept record hrecord
  obtain ⟨record', hrecord', declares, -⟩ := arrived.held.record
  cases hrecord.symm.trans hrecord'
  cases deleted : record.isDeleted with
  | false => rfl
  | true =>
    have := run.deleted sound empty before begun (by simp [fresh]) hrecord deleted
    exact absurd (declares.owner_eq ▸ this) kept

end Strongbox.Exchange
