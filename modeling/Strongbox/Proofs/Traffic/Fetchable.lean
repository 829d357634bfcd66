import Strongbox.Proofs.Download
import Strongbox.Proofs.Receiving.Acceptance
import Strongbox.Proofs.Traffic.Snapshot

/-!
# What was accepted can be fetched

Both ends judge what a file announces: the service before it keeps the file, and the receiver again
before it takes the file. They agree on the numbers, but only the receiver looks at the name.

## Main statements

* `Download.Serving.exact`: a stream that is over is exact, and brings the payload.
* `Traffic.Run.serving`: a download keeps to its payload, whatever else is called for.
* `Traffic.fetchable_of_run`: every available file is taken by its receiver, or refused for its name
  alone.
-/

namespace Strongbox

open Ledger Message

namespace Download

variable {key : Key} {payload : Bytes} {plan : Plan} {m : Metadata} {file : Int} {d e : Distributor}
  {frames : List Message.Chunk}

/-- A stream that is over is exact, and its frames make up the payload. -/
theorem Serving.exact (serving : Serving key payload plan m file d frames)
    (announced : Upload.Announces m plan) (size_eq : plan.size = payload.length)
    (final : d.isOver = true) :
    ∃ got, Upload.Exact d.taken m plan got ∧ Receiving.MakesUp plan got payload := by
  obtain ⟨taken_eq, perm⟩ := serving.all_taken final
  have total_le := (Sending.fits_of_announces announced).total_le
  have pieces : ∀ c ∈ frames, plan.piece c =
      .ok ⟨c.index.toInt.toNat, plan.slice payload c.index.toInt.toNat⟩ := by
    intro c hc
    obtain ⟨i, cut⟩ := serving.cut c hc
    obtain ⟨piece, rfl⟩ := Sending.piece_of_cut? size_eq total_le cut
    exact piece
  have sends : Upload.Sends d.taken m plan frames :=
    ⟨taken_eq, announced, fun c hc => ⟨_, pieces c hc⟩⟩
  have passed : Upload.Passed d.taken ⟨Upload.draftOf m, plan⟩ (frames.map Upload.pieceOf) := by
    refine ⟨sends.offered, sends.read, ?_⟩
    rw [List.map_map]
    exact perm
  obtain ⟨m', frames', exact, -⟩ := passed.exact
  obtain ⟨first, others⟩ := List.cons.inj (taken_eq.symm.trans exact.stream)
  cases first
  cases Upload.itemsOf_inj others
  refine ⟨frames, exact, size_eq.symm, fun c hc => ?_⟩
  exact congrArg Piece.data (Upload.piece_eq_pieceOf (pieces c hc))

/-- Every move but that of a reader who leaves keeps to what is served. -/
theorem Serving.stays {σ : Type} [Ledger σ] [Store σ] [LawfulStore σ] {s : σ} {owner : Int}
    {draft : Draft} {mv : Move} (serving : Serving key payload plan m file d frames)
    (sound : Sound s) (total_le : plan.total ≤ Word.maxInt32)
    (held : Upload.Held key owner ⟨draft, plan⟩ file true s (plan.pieces payload))
    (stays : mv ≠ .hangUp) (h : Download.step key mv s d = some e) :
    ∃ frames', Serving key payload plan m file e frames' := by
  cases mv with
  | worker n =>
    obtain ⟨frames', serving', -⟩ := serving.step sound total_le held (.worker n) h
    exact ⟨frames', serving'⟩
  | closer =>
    obtain ⟨frames', serving', -⟩ := serving.step sound total_le held .closer h
    exact ⟨frames', serving'⟩
  | reader =>
    simp only [Download.step] at h
    split at h <;> cases h
    exact ⟨frames, serving.reader ‹_›⟩
  | hangUp => exact absurd rfl stays

end Download

namespace Traffic

variable {σ : Type} [Store σ] [Ledger σ] [LawfulStore σ] {t : Transfer} {w v u : Traffic σ}
  {es es' : List Event} {file owner : Int} {r : Record} {s₀ : σ} {payload : Bytes} {plan : Plan}
  {m : Metadata} {draft : Draft} {d : Download.Distributor} {frames : List Message.Chunk}

section Empty

variable (sound : Sound s₀) (empty : files s₀ = []) (run : Run t ⟨s₀, []⟩ es w)

include sound empty run

/-- A download of a file that holds a payload keeps to it, whatever else is called for, while its
reader stays. -/
theorem Run.serving {n : Nat} (total_le : plan.total ≤ Word.maxInt32)
    (held : Upload.Held t.key owner ⟨draft, plan⟩ file true w.store (plan.pieces payload))
    (hn : w.calls[n]? = some (.downloading d))
    (serving : Download.Serving t.key payload plan m file d frames) (run' : Run t w es' u)
    (stays : .download n .hangUp ∉ es') :
    ∃ e got, u.calls[n]? = some (.downloading e) ∧
      Download.Serving t.key payload plan m file e got := by
  induction run' with
  | nil => exact ⟨d, frames, hn, serving⟩
  | @snoc y z es' e run' h ih =>
    rw [List.mem_append, not_or, List.mem_singleton] at stays
    obtain ⟨d, got, hd, serving⟩ := ih stays.1
    have sound' := ((run.append run').orderly_of_empty sound empty).sound
    have held' := run.held sound empty run' held
    obtain ⟨lt, -⟩ := List.getElem?_eq_some_iff.1 hd
    by_cases own : e.call? = some n
    · cases advance_of_step h with
      | offer | fetch | delete => cases own
      | still idle =>
        rw [idle] at own
        cases own
      | upload hk =>
        cases own
        cases hd.symm.trans hk
      | @download _ mv _ d' hk hstep =>
        cases own
        cases hd.symm.trans hk
        have here : mv ≠ .hangUp := by
          rintro rfl
          exact stays.2 rfl
        obtain ⟨got', serving'⟩ := serving.stays sound' total_le held' here hstep
        exact ⟨d', got', by rw [getElem?_moveTo hk, if_pos rfl], serving'⟩
    · exact ⟨d, got, (calls_beside h own lt).trans hd, serving⟩

end Empty

/-- What was accepted can be fetched, but for its name. Every available file was uploaded by an
exact stream, and the metadata of its record announce the plan that the stream announced. Its owner
can open a download; while the reader stays the download can move until it is over, but not for
ever, and this is so whatever else is called for. Once it is over, its stream is exact for that plan
and brings the contents that were uploaded, and it becomes a file with these contents, whoever
receives it, if the name of the file is usable. If it is not, everybody who receives the stream
refuses it for the name, and nothing is left behind. -/
theorem fetchable_of_run (sound : Sound s₀) (empty : files s₀ = []) (run : Run t ⟨s₀, []⟩ es w)
    (hr : record? w.store file = some r) (available : r.isAvailable = true)
    (few : t.workers < Word.count32) :
    ∃ v k items m plan frames contents,
      Made t ⟨s₀, []⟩ es k file ∧ Begun t ⟨s₀, []⟩ es k r.owner items ∧
      Upload.Exact items m plan frames ∧ Receiving.MakesUp plan frames contents ∧
      (Keeps σ (Upload.draftOf m) → r.filename = m.filename) ∧
      Upload.Announces r.metadata plan ∧ step t (.fetch r.owner file) w = some v ∧
      ∀ es' u, Run t v es' u → .download w.calls.length .hangUp ∉ es' →
        ∃ d, u.calls[w.calls.length]? = some (.downloading d) ∧
          (d.isOver = true →
            (∃ got, Upload.Exact d.taken r.metadata plan got ∧
              Receiving.MakesUp plan got contents) ∧
            match Name.safe r.filename with
            | .ok name => Receiving.Lands d.taken r.metadata plan name contents
            | .error f => ∀ schedule writers drawn dest tree,
                receive schedule writers drawn dest d.taken tree = (.error (.failed f), tree)) ∧
          (d.isOver = false → ∃ mv x, mv ≠ .hangUp ∧
            step t (.download w.calls.length mv) u = some x) ∧
          ∀ mv x, step t (.download w.calls.length mv) u = some x →
            ∃ e, x.calls[w.calls.length]? = some (.downloading e) ∧ e.weight < d.weight := by
  have shown : r.isComplete = true ∧ r.isDeleted = false := by
    simpa [Record.isAvailable] using available
  obtain ⟨k, items, m, plan, frames, made, begun, exact, held⟩ :=
    run.accepted sound empty hr shown.1
  obtain ⟨r', hr', declares, -⟩ := held.record
  cases hr.symm.trans hr'
  have makes := Receiving.makesUp_of_exact exact
  have held' := held.perm ((Receiving.cuts_of_exact exact).perm exact.passed.all)
  have fits := Sending.fits_of_announces exact.announced
  have announced := Download.announces_metadata declares fits
  obtain ⟨d₀, opened, -, serving⟩ := Download.serving_of_begin
    (run.orderly_of_empty sound empty).sound held' hr shown.2 few
  have fetched : step t (.fetch r.owner file) w = some (w.join (.downloading d₀)) := by
    simp only [step, opened]
  refine ⟨_, k, items, m, plan, frames, _, made, begun, exact, makes,
    fun keeps => (declares.tells keeps).filename_eq, announced, fetched, fun es' u run' stays => ?_⟩
  -- The download keeps to the chunks that it was opened on, whatever happens beside it.
  obtain ⟨d, got, hd, serving⟩ := (run.snoc fetched).serving sound empty fits.total_le held'
    List.getElem?_concat_length serving run' stays
  refine ⟨d, hd, fun final => ?_, fun waiting => ?_, fun mv x hx => ?_⟩
  · obtain ⟨got, exact', makes'⟩ := serving.exact announced makes.length_eq.symm final
    refine ⟨⟨got, exact', makes'⟩, ?_⟩
    split
    · rename_i name safe
      exact Receiving.lands_of_exact exact' safe makes'
    · rename_i f refused
      exact Receiving.receive_of_refused (by rw [exact'.stream]; rfl) announced refused
  · obtain ⟨mv, e, stays', hstep⟩ : ∃ mv e, mv ≠ .hangUp ∧
        Download.step t.key mv u.store d = some e := Download.exists_move waiting serving.opened
    exact ⟨mv, _, stays', by simp only [step, hd, hstep]; rfl⟩
  · simp only [step, hd] at hx
    obtain ⟨e, hstep, rfl⟩ := Option.map_eq_some_iff.1 hx
    exact ⟨e, by rw [getElem?_moveTo hd, if_pos rfl], Download.weight_step hstep⟩

/-- One byte, uploaded under a name with a folder, becomes a file with the bare name. -/
theorem fetchable_of_one_byte :
    let t : Transfer := ⟨1, ⟨List.replicate 32 0, List.length_replicate⟩, Nat.one_pos⟩
    let nonce : Nonce := ⟨List.replicate 24 0, List.length_replicate⟩
    let front : Event := .upload 0 default .front
    let worker : Event := .upload 0 default (.worker 0 (some nonce))
    let accumulator : Event := .upload 0 default .accumulator
    let m : Metadata := { filename := "b/a", originalSize := 1, chunkSize := 1, totalChunks := 1 }
    let items : List Item := [.ok (.metadata m), .ok (.chunk { data := [7] })]
    let es : List Event := [.offer 5 items, front, front, front, front, worker, worker, worker,
      worker, worker, front, accumulator, worker, worker, accumulator, front, front]
    let es' : List Event := List.replicate 4 (.download 1 (.worker 0)) ++
      [.download 1 .closer, .download 1 .reader, .download 1 .reader]
    ∃ (w v u : Traffic Resident) (r : Record) (d : Download.Distributor) (plan : Plan)
      (contents : Bytes), Run t ⟨{}, []⟩ es w ∧ record? w.store 1 = some r ∧
      r.isAvailable = true ∧ step t (.fetch 5 1) w = some v ∧ Run t v es' u ∧
      u.calls[1]? = some (.downloading d) ∧ d.isOver = true ∧ contents.length = 1 ∧
      Receiving.Lands d.taken r.metadata plan "a" contents := by
  intro t nonce front worker accumulator m items es es'
  have outcome : ((es.foldlM (fun w e => step t e w) (⟨{}, []⟩ : Traffic Resident)).bind fun w =>
      (record? w.store 1).bind fun r => (step t (.fetch 5 1) w).bind fun v =>
        (es'.foldlM (fun w e => step t e w) v).bind fun u => u.calls[1]?.map fun c =>
          (w.calls.length, r.owner, r.isAvailable, r.metadata, match c with
            | .downloading d => d.isOver
            | .uploading .. => false)) = some (1, 5, true, m, true) := by decide +kernel
  obtain ⟨w, hw, outcome⟩ := Option.bind_eq_some_iff.1 outcome
  obtain ⟨r, hr, outcome⟩ := Option.bind_eq_some_iff.1 outcome
  obtain ⟨v, hv, outcome⟩ := Option.bind_eq_some_iff.1 outcome
  obtain ⟨u, hu, outcome⟩ := Option.bind_eq_some_iff.1 outcome
  obtain ⟨c, hc, outcome⟩ := Option.map_eq_some_iff.1 outcome
  simp only [Prod.mk.injEq] at outcome
  obtain ⟨length_eq, owner_eq, available, metadata_eq, final⟩ := outcome
  have run := Run.of_foldlM hw
  obtain ⟨v', k, items', m', plan, frames, contents, -, -, -, makes, -, announced, fetched,
    served⟩ := fetchable_of_run Resident.sound_empty rfl run hr available (by decide)
  rw [owner_eq] at fetched
  cases hv.symm.trans fetched
  obtain ⟨d, hd, taken, -⟩ := served es' u (Run.of_foldlM hu) (by simp [length_eq, es'])
  rw [length_eq] at hd
  cases hc.symm.trans hd
  have safe : Name.safe r.filename = .ok "a" := by
    have kept : Name.bare? "b/a".toList = some ['a'] := by decide +kernel
    rw [show r.filename = "b/a" from congrArg Metadata.filename metadata_eq, Name.safe, kept]
  obtain ⟨-, lands⟩ := taken final
  rw [safe] at lands
  have size_eq : plan.size = 1 := by
    have size_eq := announced.size_eq
    rw [metadata_eq] at size_eq
    exact Int.ofNat.inj size_eq
  exact ⟨w, v, u, r, d, plan, contents, run, hr, available, hv, Run.of_foldlM hu, hd, final,
    makes.length_eq.trans size_eq, lands⟩

/-- A file whose name is one blank: the service accepts it, keeps it and sends it, and every
receiver refuses it. -/
theorem refused_for_blank_name :
    let t : Transfer := ⟨1, ⟨List.replicate 32 0, List.length_replicate⟩, Nat.one_pos⟩
    let front : Event := .upload 0 default .front
    let worker : Event := .upload 0 default (.worker 0 none)
    let m : Metadata := { filename := " ", chunkSize := 1 }
    let plan : Plan := ⟨0, 1, Nat.one_pos, by decide⟩
    let items : List Item := [.ok (.metadata m)]
    let es : List Event := [.offer 5 items, front, front, front, worker, worker,
      .upload 0 default .accumulator, front, front]
    ∃ (w v u : Traffic Resident) (r : Record) (d : Download.Distributor),
      Upload.offer items.head? = .ok ⟨Upload.draftOf m, plan⟩ ∧ Run t ⟨{}, []⟩ es w ∧
      record? w.store 1 = some r ∧ r.isAvailable = true ∧ step t (.fetch 5 1) w = some v ∧
      Run t v [.download 1 .closer, .download 1 .reader] u ∧
      u.calls[1]? = some (.downloading d) ∧ d.isOver = true ∧
      ∀ schedule writers drawn dest tree, receive schedule writers drawn dest d.taken tree =
        (.error (.failed (.validation ("unusable file name " ++ Text.quoted " "))), tree) := by
  intro t front worker m plan items es
  have outcome : ((es.foldlM (fun w e => step t e w) (⟨{}, []⟩ : Traffic Resident)).bind fun w =>
      (record? w.store 1).bind fun r => (step t (.fetch 5 1) w).bind fun v =>
        ([.download 1 .closer, .download 1 .reader].foldlM (fun w e => step t e w) v).bind fun u =>
          u.calls[1]?.map fun c => (r.isAvailable, match c with
            | .downloading d => (d.isOver, d.taken)
            | .uploading .. => (false, []))) = some (true, true, items) := by decide +kernel
  obtain ⟨w, hw, outcome⟩ := Option.bind_eq_some_iff.1 outcome
  obtain ⟨r, hr, outcome⟩ := Option.bind_eq_some_iff.1 outcome
  obtain ⟨v, hv, outcome⟩ := Option.bind_eq_some_iff.1 outcome
  obtain ⟨u, hu, outcome⟩ := Option.bind_eq_some_iff.1 outcome
  obtain ⟨c, hc, outcome⟩ := Option.map_eq_some_iff.1 outcome
  obtain ⟨available, sent⟩ := Prod.mk.inj outcome
  cases c with
  | uploading => cases (Prod.mk.inj sent).1
  | downloading d =>
    obtain ⟨final, taken_eq⟩ := Prod.mk.inj sent
    have announced : Upload.Announces m plan := ⟨by decide, by decide, by decide⟩
    have refused : Name.safe " " =
        .error (.validation ("unusable file name " ++ Text.quoted " ")) := by
      have kept : Name.bare? " ".toList = none := by decide +kernel
      rw [Name.safe, kept]
    refine ⟨w, v, u, r, d, Upload.offer_eq_ok_iff.2 ⟨m, rfl, announced, rfl⟩, Run.of_foldlM hw, hr,
      available, hv, Run.of_foldlM hu, hc, final, ?_⟩
    exact Receiving.receive_of_refused (by rw [taken_eq]; rfl) announced refused

end Traffic

end Strongbox
