import Strongbox.Proofs.Store.Resident
import Strongbox.Proofs.Traffic

/-!
# What a store can hold

What is in the store after any row of events that began with an empty one.

## Main definitions

* `Traffic.Whole`: a record is that of a plan, and its chunks open to all of its pieces.

## Main statements

* `Traffic.Run.numbers`: the numbers of files only grow.
* `Traffic.contents_of_run`: numbers are given out once, chunks belong to records, complete files
  are whole, and incomplete ones are still being uploaded. -/

namespace Strongbox.Traffic

open Ledger Upload

/-- The record is that of a plan, and the chunks open to the pieces given, which are one for each
index, as long as the plan says, and together as long as the file. -/
structure Whole (key : Key) (r : Record) (rows : List Chunk) (plan : Plan) (ps : List Piece) :
    Prop where
  chunkSize_eq : r.chunkSize = plan.chunkSize
  totalChunks_eq : r.totalChunks = plan.total
  originalSize_eq : r.originalSize = plan.size
  opens : rows.map (Chunk.piece? key) = ps.map some
  indices : (ps.map (·.index)).Perm (List.range plan.total)
  lengths : ∀ t ∈ ps, ∃ sp, plan.span? t.index = some sp ∧ t.data.length = sp.length
  sum_eq : sumOver (·.data.length) ps = r.originalSize

/-- A list that is some pieces in another order is those pieces in that order. -/
theorem exists_perm_of_map_some {α : Type} {l : List (Option α)} {ps : List α}
    (h : l.Perm (ps.map some)) : ∃ qs : List α, l = qs.map some ∧ qs.Perm ps := by
  refine ⟨l.filterMap id, ?_, by simpa using h.filterMap id⟩
  have all : ∀ a ∈ l, a.isSome := by
    intro a ha
    obtain ⟨b, -, rfl⟩ := List.mem_map.1 (h.mem_iff.1 ha)
    rfl
  clear h
  induction l with
  | nil => rfl
  | cons a l ih =>
    obtain ⟨b, rfl⟩ := Option.isSome_iff_exists.1 (all a List.mem_cons_self)
    have rest := ih fun a ha => all a (List.mem_cons_of_mem _ ha)
    show some b :: l = some b :: (l.filterMap id).map some
    rw [← rest]

variable {σ : Type} [Store σ] [Ledger σ] {t : Transfer} {w₀ w v u : Traffic σ}
  {es es' : List Event} {e : Event} {file : Int} {s : σ} {key : Key} {owner : Int} {p : Pipeline}
  {frames : List Message.Item} {o : Offer} {ps : List Piece}

omit [Store σ] in
theorem whole_of_charge {r : Record} (charge : Charge key owner frames o file true s p ps)
    (hr : record? s file = some r) : ∃ qs, Whole key r (rows s file) o.plan qs := by
  obtain ⟨r', hr', declares, -⟩ := charge.held.record
  cases hr.symm.trans hr'
  obtain ⟨qs, opens, perm⟩ := exists_perm_of_map_some charge.held.rows
  have fits : ∀ t ∈ qs, o.plan.Fits t := fun t ht => charge.fits t (perm.mem_iff.1 ht)
  have indices := (perm.map (·.index)).trans (charge.all rfl)
  refine ⟨qs, declares.chunkSize_eq, declares.totalChunks_eq, declares.originalSize_eq, opens,
    indices, fun t ht => ?_, ?_⟩
  · have length_eq := (fits t ht).length_eq
    have hsp := Plan.span?_of_lt (fits t ht).lt_total
    rw [Plan.spanLength, hsp] at length_eq
    exact ⟨_, hsp, length_eq⟩
  · rw [declares.originalSize_eq]
    exact Plan.sumOver_of_perm fits indices

omit [Store σ] in
/-- The chunks in the charge of an upload have indices below the total of the record. -/
theorem index_lt_of_charge {complete : Bool} {r : Record} {c : Chunk}
    (charge : Charge key owner frames o file complete s p ps) (hr : record? s file = some r)
    (hc : c ∈ rows s file) : c.index < r.totalChunks := by
  obtain ⟨r', hr', declares, -⟩ := charge.held.record
  cases hr.symm.trans hr'
  obtain ⟨t, ht, hopen⟩ := charge.held.piece_of_mem hc
  rw [declares.totalChunks_eq, ← Chunk.index_piece? hopen]
  exact (charge.fits t ht).lt_total

/-! ## Numbers -/

variable [LawfulStore σ]

/-- After an event, the files are those that were there and one that may be new. -/
theorem Orderly.numbers (orderly : Orderly t w₀ es w) (h : Traffic.step t e w = some v) :
    last w.store ≤ last v.store ∧ ∀ file, (record? v.store file).isSome →
      (record? w.store file).isSome ∨ last w.store < file := by
  have same : last w.store ≤ last w.store ∧ ∀ file, (record? w.store file).isSome →
      (record? w.store file).isSome ∨ last w.store < file := ⟨Int.le_refl _, fun _ => .inl⟩
  cases advance_of_step h with
  | offer | fetch | still | download => exact same
  | @delete user file s hs =>
    have outcome := LawfulStore.delete user file orderly.sound
    rw [hs] at outcome
    cases outcome with
    | done live owned changes record_eq rows_eq =>
      refine ⟨Int.le_of_eq changes.last_eq.symm, fun g hg => .inl ?_⟩
      by_cases hfile : g = file
      · rw [hfile, (live?_eq_some_iff.1 live).1]
        rfl
      · rwa [changes.record_eq g hfile] at hg
  | upload hn hstep =>
    obtain ⟨frames, -, inv⟩ := orderly.stands hn
    refine ⟨(inv.step orderly.sound hstep).1.last_le, ?_⟩
    intro file hfile
    obtain ⟨r, hr⟩ := Option.isSome_iff_exists.1 hfile
    rcases inv.record_of_step orderly.sound hstep hr with own | ⟨old, -⟩
    · rcases charge?_of_step orderly.sound hstep own with old | ⟨-, -, -, lt, -⟩
      · obtain ⟨o, complete, ps, charge⟩ := inv.charge old
        obtain ⟨r, hr, -⟩ := charge.held.record
        exact .inl (by rw [hr]; rfl)
      · exact .inr lt
    · exact .inl (by rw [old]; rfl)

/-- After an event, a file in the charge of an upload was so before, or it is new. -/
theorem Orderly.charge_of_step {n : Nat} {q : Pipeline} (orderly : Orderly t w₀ es w)
    (h : Traffic.step t e w = some v) (hn : v.calls[n]? = some (.uploading owner q))
    (hq : q.front.charge? = some file) :
    (∃ p, w.calls[n]? = some (.uploading owner p) ∧ p.front.charge? = some file) ∨
      last w.store < file := by
  rcases calls_of_step h hn with old | own | ⟨user, frames, -, hc⟩ | ⟨d, hc⟩
  · exact .inl ⟨q, old, hq⟩
  · cases advance_of_step h with
    | offer | fetch | delete => cases own
    | still idle =>
      rw [idle] at own
      cases own
    | download hd =>
      cases own
      rw [getElem?_moveTo hd, if_pos rfl] at hn
      cases hn
    | @upload _ _ _ _ p _ _ hp hstep =>
      cases own
      rw [getElem?_moveTo hp, if_pos rfl] at hn
      cases hn
      rcases charge?_of_step orderly.sound hstep hq with old | ⟨-, -, -, new, -⟩
      · exact .inl ⟨p, hp, old⟩
      · exact .inr new
  · cases hc
    cases hq
  · cases hc

section Empty

variable {s₀ : σ} (sound : Sound s₀) (empty : files s₀ = []) (run : Run t ⟨s₀, []⟩ es w)

include sound empty run

/-- There is order after a row of events that began with an empty store. -/
theorem Run.orderly_of_empty : Orderly t ⟨s₀, []⟩ es w := by
  apply run.orderly sound
  intro file
  have : file ∈ files s₀ ↔ (record? s₀ file).isSome := LawfulStore.mem_files_iff sound
  simpa [empty] using this

/-- After a further row of events, the files are those that were there and new ones. -/
theorem Run.numbers (run' : Run t w es' v) :
    last w.store ≤ last v.store ∧ ∀ file, (record? v.store file).isSome →
      (record? w.store file).isSome ∨ last w.store < file := by
  induction run' with
  | nil => exact ⟨Int.le_refl _, fun _ => .inl⟩
  | snoc run' h ih =>
    obtain ⟨le, old⟩ := ih
    obtain ⟨le', old'⟩ := ((run.append run').orderly_of_empty sound empty).numbers h
    refine ⟨Int.le_trans le le', ?_⟩
    intro file hfile
    rcases old' file hfile with there | new
    · exact old file there
    · exact .inr (Int.lt_of_le_of_lt le new)

theorem Run.gone_for_good (run' : Run t w es' v) {es'' : List Event} (run'' : Run t v es'' u)
    (there : file ∈ files w.store) (gone : file ∉ files v.store) : file ∉ files u.store := by
  have order := run.orderly_of_empty sound empty
  have order' := (run.append run').orderly_of_empty sound empty
  have order'' := ((run.append run').append run'').orderly_of_empty sound empty
  intro back
  have le := LawfulStore.le_last order.sound there
  have grown := (run.numbers sound empty run').1
  rw [LawfulStore.mem_files_iff order'.sound] at gone
  rcases ((run.append run').numbers sound empty run'').2 file
    ((LawfulStore.mem_files_iff order''.sound).1 back) with there | new
  · exact gone there
  · omega

/-- An upload stays where it should be, by the frames with which it began. -/
theorem Run.stays {n : Nat} (hn : w.calls[n]? = some (.uploading owner p))
    (inv : Inv t.key owner frames w.store p) (run' : Run t w es' v) :
    ∃ q, v.calls[n]? = some (.uploading owner q) ∧ Inv t.key owner frames v.store q := by
  induction run' with
  | nil => exact ⟨p, hn, inv⟩
  | snoc run' h ih =>
    obtain ⟨q, hq, inv⟩ := ih
    exact ((run.append run').orderly_of_empty sound empty).stays hq inv h

theorem Run.charge_unique {n k : Nat} {user : Int} {q : Pipeline}
    (hn : w.calls[n]? = some (.uploading owner p)) (hp : p.front.charge? = some file)
    (run' : Run t w es' v) (hk : v.calls[k]? = some (.uploading user q))
    (hq : q.front.charge? = some file) : k = n := by
  have orderly := run.orderly_of_empty sound empty
  induction run' generalizing q with
  | nil => exact orderly.apart hk hn hq hp
  | snoc run' h ih =>
    have later := (run.append run').orderly_of_empty sound empty
    rcases later.charge_of_step h hk hq with ⟨q', hk', hq'⟩ | new
    · exact ih hk' hq'
    · have le := (orderly.made hn hp).1
      have grown := (run.numbers sound empty run').1
      omega

theorem Run.index_lt {c : Chunk} (hc : c ∈ rows w.store file) :
    ∃ r, record? w.store file = some r ∧ c.index < r.totalChunks := by
  have orderly := run.orderly_of_empty sound empty
  cases hr : record? w.store file with
  | none =>
    rw [LawfulStore.rows_of_missing orderly.sound hr] at hc
    cases hc
  | some r =>
    obtain ⟨n, owner, p, hn, hp⟩ := orderly.kept hr
    obtain ⟨frames, -, inv⟩ := orderly.stands hn
    obtain ⟨o, complete, ps, charge⟩ := inv.charge hp
    exact ⟨r, rfl, index_lt_of_charge charge hr hc⟩

/-- A complete file is whole, and as the metadata said with which its upload began. -/
theorem Run.whole {r : Record} (hr : record? w.store file = some r)
    (complete : r.isComplete = true) :
    ∃ n frames m plan ps, Made t ⟨s₀, []⟩ es n file ∧ Begun t ⟨s₀, []⟩ es n r.owner frames ∧
      frames.head? = some (.ok (.metadata m)) ∧ Announces m plan ∧
      Whole t.key r (rows w.store file) plan ps := by
  have orderly := run.orderly_of_empty sound empty
  obtain ⟨n, owner, p, hn, hp⟩ := orderly.kept hr
  obtain ⟨frames, begun, inv⟩ := orderly.stands hn
  obtain ⟨o, finished, ps, charge⟩ := inv.charge hp
  obtain ⟨r', hr', declares, hfinished⟩ := charge.held.record
  cases hr.symm.trans hr'
  cases complete.symm.trans hfinished
  obtain ⟨m, head_eq, announced, -⟩ := offer_eq_ok_iff.1 charge.offered
  obtain ⟨qs, whole⟩ := whole_of_charge charge hr
  exact ⟨n, frames, m, o.plan, qs, (orderly.made hn hp).2, declares.owner_eq ▸ begun, head_eq,
    announced, whole⟩

theorem Run.unfinished {r : Record} (hr : record? w.store file = some r)
    (incomplete : r.isComplete = false) :
    ∃ n p, w.calls[n]? = some (.uploading r.owner p) ∧ Made t ⟨s₀, []⟩ es n file ∧
      ∀ v, p.front ≠ .finished v := by
  have orderly := run.orderly_of_empty sound empty
  obtain ⟨n, owner, p, hn, hp⟩ := orderly.kept hr
  obtain ⟨frames, begun, inv⟩ := orderly.stands hn
  obtain ⟨o, finished, ps, charge⟩ := inv.charge hp
  obtain ⟨r', hr', declares, hfinished⟩ := charge.held.record
  cases hr.symm.trans hr'
  cases incomplete.symm.trans hfinished
  refine ⟨n, p, declares.owner_eq ▸ hn, (orderly.made hn hp).2, ?_⟩
  intro v hv
  have := charge.at_work rfl
  rw [hv] at this
  cases this

end Empty

/-- In a store that was empty before any calls, numbers are given out once, every chunk belongs to a
record and is counted by it, every complete file is whole, and every incomplete one is still being
uploaded. -/
theorem contents_of_run {s₀ : σ} (sound : Sound s₀) (empty : files s₀ = [])
    (run : Run t ⟨s₀, []⟩ es w) :
    (files w.store).Nodup ∧
    (∀ es' v es'' u file, Run t w es' v → Run t v es'' u → file ∈ files w.store →
      file ∉ files v.store → file ∉ files u.store) ∧
    (∀ file, ∀ c ∈ rows w.store file,
      ∃ r, record? w.store file = some r ∧ c.index < r.totalChunks) ∧
    (∀ file r, record? w.store file = some r → r.isComplete = true →
      ∃ n frames m plan ps, Made t ⟨s₀, []⟩ es n file ∧ Begun t ⟨s₀, []⟩ es n r.owner frames ∧
        frames.head? = some (.ok (.metadata m)) ∧ Announces m plan ∧
        Whole t.key r (rows w.store file) plan ps) ∧
    (∀ file r, record? w.store file = some r → r.isComplete = false →
      ∃ n p, w.calls[n]? = some (.uploading r.owner p) ∧ Made t ⟨s₀, []⟩ es n file ∧
        ∀ v, p.front ≠ .finished v) ∧
    ((∀ (n : Nat) (owner : Int) (p : Pipeline), w.calls[n]? = some (.uploading owner p) →
        ∃ v, p.front = .finished v) →
      ∀ file r, record? w.store file = some r → r.isComplete = true) := by
  refine ⟨LawfulStore.nodup_files (run.orderly_of_empty sound empty).sound,
    fun es' v es'' u file run' run'' => run.gone_for_good sound empty run' run'',
    fun file c => run.index_lt sound empty, fun file r => run.whole sound empty,
    fun file r => run.unfinished sound empty, fun idle file r hr => ?_⟩
  cases complete : r.isComplete with
  | true => rfl
  | false =>
    obtain ⟨n, p, hn, -, running⟩ := run.unfinished sound empty hr complete
    obtain ⟨v, hv⟩ := idle n r.owner p hn
    exact absurd hv (running v)

/-- One byte, uploaded in one chunk. -/
theorem contents_of_one_byte :
    let t : Transfer := ⟨1, ⟨List.replicate 32 0, List.length_replicate⟩, Nat.one_pos⟩
    let nonce : Nonce := ⟨List.replicate 24 0, List.length_replicate⟩
    let front : Event := .upload 0 default .front
    let worker : Event := .upload 0 default (.worker 0 (some nonce))
    let accumulator : Event := .upload 0 default .accumulator
    let items : List Message.Item :=
      [.ok (.metadata { originalSize := 1, chunkSize := 1, totalChunks := 1 }),
        .ok (.chunk { data := [7], isLast := true })]
    let es : List Event := [.offer 5 items, front, front, front, front, worker, worker, worker,
      worker, worker, front, accumulator, worker, worker, accumulator, front, front]
    ∃ (w : Traffic Resident) (r : Record), Run t ⟨{}, []⟩ es w ∧ record? w.store 1 = some r ∧
      r.isComplete = true ∧ ∃ m plan ps, Announces m plan ∧
        Whole t.key r (rows w.store 1) plan ps := by
  intro t nonce front worker accumulator items es
  have outcome : ((es.foldlM (fun w e => Traffic.step t e w) (⟨{}, []⟩ : Traffic Resident)).bind
      fun w => (record? w.store 1).map (·.isComplete)) = some true := by decide +kernel
  obtain ⟨w, hw, outcome⟩ := Option.bind_eq_some_iff.1 outcome
  obtain ⟨r, hr, complete⟩ := Option.map_eq_some_iff.1 outcome
  have run := Run.of_foldlM hw
  have contents := contents_of_run Resident.sound_empty rfl run
  obtain ⟨n, frames, m, plan, ps, -, -, -, announced, whole⟩ :=
    contents.2.2.2.1 1 r hr complete
  exact ⟨w, r, run, hr, complete, m, plan, ps, announced, whole⟩

end Strongbox.Traffic
