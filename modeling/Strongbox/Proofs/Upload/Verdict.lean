import Strongbox.Proofs.Store.Resident
import Strongbox.Proofs.Upload.Exact
import Strongbox.Proofs.Upload.Progress
import Strongbox.Upload

/-!
# What an upload answers

## Main definitions

* `Upload.Course`: what can come of an upload while others use the store.
* `Upload.Kept`: a file holds exactly what a stream has brought.

## Main statements

* `Upload.Course.fair`: nothing goes wrong on a course but what the stream is to blame for.
* `Upload.Course.run`: the moves of a schedule make up a course.
* `Upload.verdict_of_course`: which streams are accepted, what is kept of them, and how the others
  are turned away.
-/

namespace Strongbox.Upload

open Message Ledger

variable {σ : Type} [Store σ] [Ledger σ]

/-- What can come of an upload whose nonces are all drawn, while others use the store but leave its
file alone. -/
inductive Course (key : Key) (owner : Int) (s₀ : σ) (p₀ : Pipeline) : σ → Pipeline → Prop where
  | start : Course key owner s₀ p₀ s₀ p₀
  | move {s t : σ} {p q : Pipeline} {now : Moment} {m : Move} (course : Course key owner s₀ p₀ s p)
      (drawn : m.Drawn) (h : step key owner now m s p = some (t, q)) : Course key owner s₀ p₀ t q
  | meanwhile {s t : σ} {p : Pipeline} (course : Course key owner s₀ p₀ s p) (sound : Sound t)
      (alone : ∀ file, p.front.charge? = some file →
        record? t file = record? s file ∧ rows t file = rows s file) : Course key owner s₀ p₀ t p

/-- A file is complete and holds one chunk for each index of a plan, which opens to the data that
was sent under that index. -/
structure Kept (key : Key) (s : σ) (file : Int) (plan : Plan) (frames : List Message.Chunk) :
    Prop where
  record : ∃ r, record? s file = some r ∧ r.isComplete = true ∧ r.originalSize = plan.size
  indices : ((rows s file).map (·.index)).Perm (List.range plan.total)
  opens : ∀ row ∈ rows s file, ∃ c ∈ frames, c.index.toInt = row.index ∧
    row.algorithm = algorithmName ∧ key.openWith row.iv row.ciphertext = .ok c.data

variable {key : Key} {owner : Int} {s₀ s t : σ} {p₀ p : Pipeline} {items : List Item}
  {workers : Nat}

/-- Nothing goes wrong on a course but what the stream is to blame for. -/
theorem Course.fair [LawfulStore σ] (sound : Sound s₀)
    (course : Course key owner s₀ (.start workers items) s p) :
    Sound s ∧ Fair key owner items s p := by
  induction course with
  | start => exact ⟨sound, .start key owner workers items s₀⟩
  | move course drawn h ih =>
    obtain ⟨sound, fair⟩ := ih
    exact ⟨(fair.inv.step sound h).1.sound, fair.step sound drawn h⟩
  | meanwhile course sound' alone ih => exact ⟨sound', ih.2.elsewhere alone⟩

omit [Store σ] in
/-- What an upload holds when it has accepted its stream. -/
theorem Held.kept {file : Int} {o : Offer} {m : Metadata} {frames : List Message.Chunk}
    (held : Held key owner o file true s (frames.map pieceOf))
    (exact : Exact items m o.plan frames) : Kept key s file o.plan frames where
  record := by
    obtain ⟨r, hr, declares, hc⟩ := held.record
    exact ⟨r, hr, hc, declares.originalSize_eq⟩
  indices := by
    refine held.indices.trans ?_
    rw [List.map_map]
    exact exact.perm
  opens row hrow := by
    obtain ⟨t, ht, hopen⟩ := held.piece_of_mem hrow
    obtain ⟨c, hc, rfl⟩ := List.mem_map.1 ht
    obtain ⟨t, hpass⟩ := exact.sends.passes c hc
    have positive := (Plan.piece_eq_ok_iff.1 hpass).1
    obtain ⟨index_eq, known, hplain⟩ := Chunk.piece?_eq_some_iff.1 hopen
    simp only [pieceOf] at index_eq hplain
    exact ⟨c, hc, by omega, known, hplain⟩

/-! ## Schedules -/

theorem Course.run {schedule : Schedule Move} {now : Moment}
    (drawn : ∀ weight workers, ∀ m ∈ schedule weight workers, m.Drawn) :
    Course key owner s₀ p₀ ((machine key owner now).run schedule (s₀, p₀)).1
      ((machine key owner now).run schedule (s₀, p₀)).2 :=
  Machine.run_induction (P := fun x : σ × Pipeline => Course key owner s₀ p₀ x.1 x.2) .start
    fun hm course h => course.move (drawn _ _ _ hm) h

theorem drawn_of_frontFirst {nonces : Nat → Option Nonce} (h : ∀ weight, (nonces weight).isSome)
    (weight workers : Nat) : ∀ m ∈ frontFirst nonces weight workers, m.Drawn := by
  intro m hm
  simp only [frontFirst, List.mem_cons, List.mem_map] at hm
  rcases hm with rfl | rfl | ⟨n, -, rfl⟩
  · trivial
  · trivial
  · cases hnonce : nonces weight with
    | none =>
      have := h weight
      rw [hnonce] at this
      cases this
    | some nonce => trivial

/-! ## The answer -/

/-- Exact streams are accepted and kept, and no others are. A stream whose chunks all fit its plan
is turned away over an index sent twice, or else over chunks that are missing. An upload without an
answer can go on, and not for ever: each of its moves lowers its weight. -/
theorem verdict_of_course [LawfulStore σ] (sound : Sound s₀)
    (course : Course key owner s₀ (.start workers items) s p) :
    match p.front with
    | .finished (.ok v) => ∃ m plan frames, Exact items m plan frames ∧
        (v.bytesReceived : Int) = m.originalSize.toInt ∧ Kept key s v.file plan frames
    | .finished (.error f) => (¬∃ m plan frames, Exact items m plan frames) ∧
        ∀ m plan frames, Sends items m plan frames →
          if (frames.map (·.index.toInt.toNat)).Nodup then f = miscounted frames.length plan.total
          else ∃ file i, f = .duplicateChunk file i ∧
            2 ≤ (frames.map (·.index.toInt.toNat)).count i
    | _ => (∀ now nonce, Moves key owner now nonce s p) ∧
        ∀ now m t q, step key owner now m s p = some (t, q) → q.weight < p.weight := by
  obtain ⟨-, fair⟩ := course.fair sound
  cases hf : p.front with
  | finished verdict =>
    cases verdict with
    | ok v =>
      cases fair.inv with
      | done hf' still passed held bytes =>
        cases hf.symm.trans hf'
        obtain ⟨m, frames, exact, rfl⟩ := passed.exact
        refine ⟨m, _, frames, exact, ?_, held.kept exact⟩
        rw [bytes, exact.announced.size_eq]
      | working work => simpa [hf, Front.working?] using work.at_work
      | opening hf' | creating hf' | completing hf' | purging hf' | failed hf' => simp [hf] at hf'
    | error f =>
      have blame : Blame items f := fair.deserved f (.front (by rw [hf]; rfl))
      constructor
      · rintro ⟨m, plan, frames, exact⟩
        exact exact.no_blame blame
      · intro m plan frames sends
        rcases sends.of_blame blame with ⟨file, i, rfl, twice⟩ | ⟨rfl, -, nodup⟩
        · have repeated : ¬(frames.map (·.index.toInt.toNat)).Nodup := by
            intro nodup
            have := List.nodup_iff_count.1 nodup i
            omega
          rw [if_neg repeated]
          exact ⟨file, i, rfl, twice⟩
        · rw [if_pos nodup]
  | opening | creating | receiving | enqueuing | draining | completing | purging =>
    constructor
    · intro now nonce
      apply fair.inv.progress
      simp [hf]
    · intro now m t q
      exact weight_step

/-- One byte, sent to an empty store in one chunk. -/
theorem verdict_of_one_byte :
    let t : Transfer := ⟨1, ⟨List.replicate 32 0, List.length_replicate⟩, Nat.one_pos⟩
    let nonce : Nonce := ⟨List.replicate 24 0, List.length_replicate⟩
    let items : List Item :=
      [.ok (.metadata { originalSize := 1, chunkSize := 1, totalChunks := 1 }),
        .ok (.chunk { data := [7], isLast := true })]
    let after := (machine t.key 5 default).run (frontFirst fun _ => some nonce)
      (({} : Resident), .start 1 items)
    after.2.front = .finished (.ok ⟨1, 1⟩) ∧ ∃ m plan frames, Exact items m plan frames ∧
      ((1 : Nat) : Int) = m.originalSize.toInt ∧ Kept t.key after.1 1 plan frames := by
  intro t nonce items after
  have answer : after.2.front = .finished (.ok ⟨1, 1⟩) := by
    subst after items
    rfl
  have course : Course t.key 5 ({} : Resident) (.start 1 items) after.1 after.2 :=
    Course.run (drawn_of_frontFirst fun _ => rfl)
  clear_value after
  have verdict := verdict_of_course Resident.sound_empty course
  rw [answer] at verdict
  exact ⟨answer, verdict⟩

end Strongbox.Upload
