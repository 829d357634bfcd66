import Strongbox.Proofs.Exchange.Lasting
import Strongbox.Proofs.Fetch
import Strongbox.Proofs.Store.Resident

/-!
# A payload there and back

## Main definitions

* `Exchange.Vanished`: nothing is left of an upload.
* `Fetch.Delivers`: a download brings a payload, whatever else happens.

## Main statements

* `Exchange.round_trip`: a payload whose upload succeeds is kept, described and given back as it was
  until its owner deletes it, and nothing is left of one whose upload fails.
-/

namespace Strongbox

open Ledger Message

variable {σ : Type} [Store σ] [Ledger σ]

/-- Nothing is left of any file that an upload has worked on. -/
def Exchange.Vanished (t : Transfer) (x₀ x : Exchange σ) : Prop :=
  ∀ es es' y user p file, Run t x₀ es y → Run t y es' x → y.upload? = some (user, p) →
    p.front.file? = some file → record? x.traffic.store file = none ∧ rows x.traffic.store file = []

omit [Ledger σ] in
/-- A download of a file into an empty folder brings a payload, whatever is drawn for the name of
the temporary file and whatever else happens, as long as no work on a file fails: its moves are
bounded, it can move until the caller has an answer, and then the file stands in the folder. -/
def Fetch.Delivers (t : Transfer) (c : Client) (user : Int) (file : Int64) (filename : String)
    (payload : Bytes) (w : Traffic σ) : Prop :=
  ∀ drawn dest tree folder name, Name.safe filename = .ok name → isEntryName name = true →
    tree.folder dest = .ok folder → (∀ other, tree.get? (folder ++ [other]) = none) →
    ∃ z₀ bound, Fetch.begin t c user file drawn dest tree w = .ok z₀ ∧
      ∀ es z, Run t z₀ es z → (∀ e ∈ es, e.works = true) →
        es.countP Event.isOwn ≤ bound ∧
        (z.answer? = none →
          ∃ e y, e.isOwn = true ∧ e.works = true ∧ Fetch.step t e z = some y) ∧
        ∀ a, z.answer? = some a → ∃ m, a = .ok ⟨joinPath dest name, m, payload.length⟩ ∧
          z.tree.get? (folder ++ [name]) = some (.file payload)

variable [LawfulStore σ] {t : Transfer} {c : Client} {owner : Int} {o : Offering}
  {payload : Bytes} {w : Traffic σ} {s₀ : σ} {es₀ : List Traffic.Event} {file : Int} {plan : Plan}

theorem Fetch.delivers (sound : Sound s₀) (empty : files s₀ = [])
    (before : Traffic.Run t ⟨s₀, []⟩ es₀ w)
    (arrived : Exchange.Arrived t.key owner o payload w.store file plan)
    (visible : ∀ r, record? w.store file = some r → r.isDeleted = false)
    (keeps : ∀ plan, Keeps σ (Upload.draftOf (Sending.metadata plan o)))
    (numbered : (Int64.ofInt file).toInt = file) (few : t.workers < Word.count32)
    (fits : Crew.Fits c.poolSize) :
    Delivers t c owner (Int64.ofInt file) o.filename payload w := by
  intro drawn dest tree folder name safe named found vacant
  have sound' := (before.orderly_of_empty sound empty).sound
  obtain ⟨r, hr, declares, -⟩ := arrived.held.record
  have tells := declares.tells (keeps plan)
  obtain ⟨d, begun, untouched, serving⟩ :=
    Download.serving_of_begin sound' arrived.held hr (visible r hr) few
  have announced := Download.announces_metadata declares arrived.fits
  have safe' : Name.safe r.metadata.filename = .ok name := by
    rw [← safe]
    exact congrArg Name.safe tells.filename_eq
  let z₀ : Fetch σ := { traffic := w.join (.downloading d), call := w.calls.length, dest := dest
                        writers := c.poolSize, drawn := drawn, ground := tree }
  have started : Fetch.begin t c owner (Int64.ofInt file) drawn dest tree w = .ok z₀ := by
    simp only [Fetch.begin, numbered, begun]
    rfl
  have hd : z₀.download? = some d := download?_eq_some_iff.2 List.getElem?_concat_length
  have underway : Underway t.key payload plan r.metadata file folder name z₀ :=
    .waiting hd serving untouched rfl fits found vacant
  have opened : Traffic.Run t w [.fetch owner file] z₀.traffic := by
    refine Traffic.Run.nil.snoc ?_
    simp only [Traffic.step, begun]
    rfl
  refine ⟨z₀, z₀.weight, started, ?_⟩
  intro es z run works
  have before' := before.append opened
  obtain ⟨underway', dest_eq, bound, es', run'⟩ := run.underway announced safe' named
    arrived.size_eq arrived.fits.total_le sound empty before' arrived.held underway works
  have held' := before'.held sound empty run' arrived.held
  have sound'' := ((before'.append run').orderly_of_empty sound empty).sound
  refine ⟨by omega, underway'.moves arrived.fits.total_le sound'' held',
    fun a answered => ?_⟩
  obtain ⟨rfl, there⟩ := underway'.answer answered
  exact ⟨r.metadata, by rw [dest_eq, arrived.size_eq], there⟩

/-- A payload there and back. If the caller of an upload is told of a file, the file has as many
bytes as the payload, and until the owner deletes it the owner is told what was said of the payload
and can download the payload as it was. If the caller is told of a failure, nothing is left of the
upload. Every client that has no more workers than fit can download it. -/
theorem Exchange.round_trip {x₀ x : Exchange σ} {es : List Event}
    {answer : Except Failure Receipt} (sound : Sound s₀) (empty : files s₀ = [])
    (before : Traffic.Run t ⟨s₀, []⟩ es₀ w) (begun : begin t c owner o payload w = .ok x₀)
    (run : Run t x₀ es x) (answered : x.answer? = some answer)
    (keeps : ∀ plan, Keeps σ (Upload.draftOf (Sending.metadata plan o)))
    (numbered : ∀ file ∈ files x.traffic.store, (Int64.ofInt file).toInt = file)
    (small : c.chunkSize < Word.count32) (few : t.workers < Word.count32) :
    match answer with
    | .error _ => Vanished t x₀ x
    | .ok r => r.bytesReceived.toInt = payload.length ∧
        (¬Deleted t x₀ es owner r.file.toInt →
          (∃ d, Service.inform owner r.file.toInt x.traffic.store = .ok d ∧ Told d o payload) ∧
          Fetch.Delivers t c owner r.file o.filename payload x.traffic ∧
          ∀ c' : Client, Crew.Fits c'.poolSize →
            Fetch.Delivers t c' owner r.file o.filename payload x.traffic) := by
  cases answer with
  | error f =>
    intro es₁ es₂ y user p file run₁ run₂ hp hfile
    exact run₁.refused sound empty before begun run₂ answered hp hfile
  | ok r =>
    obtain ⟨plan, file, arrived, rfl, visible⟩ :=
      run.lasting sound empty before begun small answered
    obtain ⟨es', traffic⟩ := run.traffic sound empty before begun answered
    obtain ⟨sound', -⟩ := run.steady sound empty before begun
    obtain ⟨record, hrecord, -⟩ := arrived.held.record
    have there : file ∈ files x.traffic.store :=
      (LawfulStore.mem_files_iff sound').2 (by rw [hrecord]; rfl)
    have fits : payload.length ≤ Word.maxInt64 := arrived.size_eq ▸ arrived.fits.size_le
    refine ⟨Word.toInt_ofNat64 fits, ?_⟩
    simp only [numbered file there]
    intro kept
    have delivers : ∀ c' : Client, Crew.Fits c'.poolSize →
        Fetch.Delivers t c' owner (Int64.ofInt file) o.filename payload x.traffic :=
      fun c' => Fetch.delivers sound empty (before.append traffic) arrived (visible kept) keeps
        (numbered file there) few
    exact ⟨arrived.inform sound' keeps (visible kept), delivers c (begin_eq_ok begun).1, delivers⟩

/-- One byte, there and back. -/
theorem Exchange.round_trip_of_one_byte :
    let t : Transfer := ⟨1, ⟨List.replicate 32 0, List.length_replicate⟩, Nat.one_pos⟩
    let nonce : Nonce := ⟨List.replicate 24 0, List.length_replicate⟩
    let c : Client := ⟨⟨[], rfl⟩, 1, 1⟩
    let o : Offering := { filename := "a", mimeType := "text/plain" }
    let front : Event := .serve default .front
    let worker : Event := .serve default (.worker 0 (some nonce))
    let accumulator : Event := .serve default .accumulator
    let es : List Event := [.produce, .produce, .produce, .send 0, .send 0, .send 0, .send 0,
      .send 0, .send 0, .produce, .carry, .carry, front, front, front, front, worker, worker,
      worker, worker, worker, front, accumulator, worker, worker, accumulator, front, front]
    ∃ (x₀ x : Exchange Resident) (r : Receipt), begin t c 5 o [7] ⟨{}, []⟩ = .ok x₀ ∧
      Run t x₀ es x ∧ x.answer? = some (.ok r) ∧ r.bytesReceived.toInt = 1 ∧
      (∃ d, Service.inform 5 r.file.toInt x.traffic.store = .ok d ∧ Told d o [7]) ∧
      Fetch.Delivers t c 5 r.file "a" [7] x.traffic := by
  intro t nonce c o front worker accumulator es
  have outcome : ((begin t c 5 o [7] (⟨{}, []⟩ : Traffic Resident)).toOption.bind fun x₀ =>
      (es.foldlM (fun x e => step t e x) x₀).map fun x =>
        (files x.traffic.store, x.answer?.bind Except.toOption)) =
      some ([1], some ⟨1, 1, "success"⟩) := by decide +kernel
  obtain ⟨x₀, hx₀, outcome⟩ := Option.bind_eq_some_iff.1 outcome
  obtain ⟨x, hx, outcome⟩ := Option.map_eq_some_iff.1 outcome
  obtain ⟨files_eq, answer_eq⟩ := Prod.mk.inj outcome
  obtain ⟨a, answered, ha⟩ := Option.bind_eq_some_iff.1 answer_eq
  obtain ⟨r, rfl⟩ : ∃ r, a = .ok r := by
    cases a with
    | ok r => exact ⟨r, rfl⟩
    | error f => cases ha
  have begun : begin t c 5 o [7] ⟨{}, []⟩ = .ok x₀ := by
    cases hb : begin t c 5 o [7] (⟨{}, []⟩ : Traffic Resident) with
    | ok y =>
      rw [hb] at hx₀
      exact congrArg _ (Option.some.inj hx₀)
    | error f =>
      rw [hb] at hx₀
      cases hx₀
  have run : Run t x₀ es x := Run.of_foldlM hx
  have numbered : ∀ file ∈ files x.traffic.store, (Int64.ofInt file).toInt = file := by
    rw [files_eq]
    decide
  obtain ⟨bytes, kept⟩ := round_trip Resident.sound_empty rfl .nil begun run answered
    (fun _ => trivial) numbered (by decide) (by decide)
  have undeleted : ¬Deleted t x₀ es 5 r.file.toInt := by
    rintro ⟨es₁, es₂, y, s, split, -⟩
    have there : Event.other (.delete 5 r.file.toInt) ∈ es := by simp [split]
    simp [es, front, worker, accumulator] at there
  obtain ⟨told, delivers, -⟩ := kept undeleted
  exact ⟨x₀, x, r, begun, run, answered, bytes, told, delivers⟩

end Strongbox
