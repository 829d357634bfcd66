import Strongbox.Proofs.Traffic
import Strongbox.Proofs.Upload.Paced

/-!
# Uploads that fail

What is left of an upload that fails, whatever the store fails to do and whatever else goes on.

## Main definitions

* `Traffic.Stranded`: the store failed to forget the file that a call made.
* `Traffic.Tidy`: every upload has made one file at most, and is in charge of it or has let it go.

## Main statements

* `Traffic.Tidy.step`: every event keeps that.
* `Traffic.nothing_left_of_failed`: a failed upload leaves nothing behind, unless the store failed
  to forget its file.
* `Traffic.not_stranded`: a store that keeps to its contract forgets the files of all failed
  uploads.
-/

namespace Strongbox.Traffic

open Ledger Upload

variable {σ : Type} [Store σ] {t : Transfer} {w₀ w v u : Traffic σ} {es es' : List Event}
  {e e' : Event} {n k : Nat} {owner : Int} {frames : List Message.Item} {file g : Int}

/-! ## The last event of a row -/

theorem Run.foldlM_eq (run : Run t w es v) : es.foldlM (fun w e => step t e w) w = some v := by
  induction run with
  | nil => rfl
  | snoc run h ih => simp [List.foldlM_append, ih, h]

theorem Run.unique (run : Run t w es v) (run' : Run t w es u) : u = v :=
  Option.some.inj (run'.foldlM_eq.symm.trans run.foldlM_eq)

theorem Happened.of_snoc (run : Run t w₀ es w) (h : Happened t w₀ (es ++ [e]) e' v) :
    Happened t w₀ es e' v ∨ e' = e ∧ v = w := by
  obtain ⟨before, after, split, run'⟩ := h
  rcases List.eq_nil_or_concat after with rfl | ⟨after, a, rfl⟩
  · obtain ⟨rfl, last⟩ := List.append_inj' split rfl
    cases last
    exact .inr ⟨rfl, run.unique run'⟩
  · rw [List.concat_eq_append, ← List.cons_append, ← List.append_assoc] at split
    obtain ⟨rfl, -⟩ := List.append_inj' split rfl
    exact .inl ⟨before, after, rfl, run'⟩

theorem Begun.of_snoc (run : Run t w₀ es w) (h : Begun t w₀ (es ++ [e]) n owner frames) :
    Begun t w₀ es n owner frames ∨ e = .offer owner frames ∧ w.calls.length = n := by
  obtain ⟨v, happened, length_eq⟩ := h
  rcases happened.of_snoc run with old | ⟨rfl, rfl⟩
  · exact .inl ⟨v, old, length_eq⟩
  · exact .inr ⟨rfl, length_eq⟩

theorem Made.of_snoc [Ledger σ] (run : Run t w₀ es w) (h : step t e w = some v)
    (made : Made t w₀ (es ++ [e]) n file) :
    Made t w₀ es n file ∨ (∃ now, e = .upload n now .front) ∧
      record? w.store file = none ∧ (record? v.store file).isSome := by
  obtain ⟨now, w', v', happened, hstep, missing, there⟩ := made
  rcases happened.of_snoc run with old | ⟨rfl, rfl⟩
  · exact .inl ⟨now, w', v', old, hstep, missing, there⟩
  · cases h.symm.trans hstep
    exact .inr ⟨⟨now, rfl⟩, missing, there⟩

/-! ## An upload before and after an event -/

/-- Where an event takes an upload: nowhere, or on by a move of it. -/
inductive Taken (t : Transfer) (n : Nat) (owner : Int) (w v : Traffic σ) (p : Pipeline) :
    Event → Pipeline → Prop where
  | nowhere {e : Event} (other : e.call? ≠ some n) : Taken t n owner w v p e p
  | on {now : Moment} {m : Move} {q : Pipeline}
      (h : Upload.step t.key owner now m w.store p = some (v.store, q)) :
      Taken t n owner w v p (.upload n now m) q

/-- An upload stays an upload. It is where it was, unless the event is a move of it. -/
theorem uploading_of_step {p : Pipeline} (h : step t e w = some v)
    (hn : w.calls[n]? = some (.uploading owner p)) :
    ∃ q, v.calls[n]? = some (.uploading owner q) ∧ Taken t n owner w v p e q := by
  obtain ⟨lt, -⟩ := List.getElem?_eq_some_iff.1 hn
  by_cases own : e.call? = some n
  · obtain ⟨now, m, s, q, rfl, hstep, rfl⟩ := (advance_of_step h).of_uploading own hn
    exact ⟨q, by rw [getElem?_moveTo hn, if_pos rfl], .on hstep⟩
  · exact ⟨p, (calls_beside h own lt).trans hn, .nowhere own⟩

theorem uploading_before {q : Pipeline} (h : step t e w = some v)
    (hn : v.calls[n]? = some (.uploading owner q)) :
    (∃ p, w.calls[n]? = some (.uploading owner p) ∧ Taken t n owner w v p e q) ∨
      ∃ frames, e = .offer owner frames ∧ n = w.calls.length ∧ q = .start t.workers frames := by
  cases advance_of_step h with
  | offer =>
    rcases calls_join hn with old | ⟨rfl, new⟩
    · exact .inl ⟨q, old, .nowhere nofun⟩
    · cases new
      exact .inr ⟨_, rfl, rfl, rfl⟩
  | fetch =>
    rcases calls_join hn with old | ⟨-, new⟩
    · exact .inl ⟨q, old, .nowhere nofun⟩
    · cases new
  | delete => exact .inl ⟨q, hn, .nowhere nofun⟩
  | still idle => exact .inl ⟨q, hn, .nowhere (by rw [idle]; nofun)⟩
  | @upload k now m user p q' s hk hstep =>
    rw [getElem?_moveTo hk] at hn
    split at hn
    · rename_i same
      cases hn
      exact .inl ⟨p, same ▸ hk, same ▸ .on hstep⟩
    · rename_i other
      exact .inl ⟨q, hn, .nowhere fun he => other (Option.some.inj he).symm⟩
  | @download k m d d' hk =>
    rw [getElem?_moveTo hk] at hn
    split at hn
    · cases hn
    · rename_i other
      exact .inl ⟨q, hn, .nowhere fun he => other (Option.some.inj he).symm⟩

/-! ## Order among uploads, whatever the store fails to do -/

/-- The store failed to forget the file that a call made. -/
def Stranded (t : Transfer) (w : Traffic σ) (es : List Event) (n : Nat) (file : Int) : Prop :=
  ∃ now v owner p job f g, Happened t w es (.upload n now .front) v ∧
    v.calls[n]? = some (.uploading owner p) ∧ p.front = .purging job f ∧ job.file = file ∧
    Store.purge v.store file = .error g

theorem Stranded.snoc (h : Stranded t w₀ es n file) : Stranded t w₀ (es ++ [e]) n file := by
  obtain ⟨now, v, owner, p, job, f, g, happened, rest⟩ := h
  exact ⟨now, v, owner, p, job, f, g, happened.snoc, rest⟩

variable [Ledger σ] [Labelled σ]

/-- Every upload has made one file at most, and is in charge of it, unless it has failed and let it
go: then nothing is left of it, or the store failed to forget it. -/
structure Tidy (t : Transfer) (w₀ : Traffic σ) (es : List Event) (w : Traffic σ) : Prop where
  sound : Sound w.store
  paced : ∀ {n : Nat} {owner : Int} {p : Pipeline}, w.calls[n]? = some (.uploading owner p) →
    Paced p
  phased : ∀ {n : Nat} {owner : Int} {p : Pipeline}, w.calls[n]? = some (.uploading owner p) →
    Phased p
  opened : ∀ {n : Nat} {owner : Int} {frames : List Message.Item}, Begun t w₀ es n owner frames →
    ∃ p, w.calls[n]? = some (.uploading owner p) ∧ Opened frames p
  known : ∀ {n : Nat} {file : Int}, Made t w₀ es n file → n < w.calls.length
  le_last : ∀ {n : Nat} {file : Int}, Made t w₀ es n file → file ≤ last w.store
  apart : ∀ {n k : Nat} {file : Int}, Made t w₀ es n file → Made t w₀ es k file → n = k
  single : ∀ {n : Nat} {file g : Int}, Made t w₀ es n file → Made t w₀ es n g → g = file
  charged : ∀ {n : Nat} {owner file : Int} {p : Pipeline},
    w.calls[n]? = some (.uploading owner p) → p.front.charge? = some file → Made t w₀ es n file
  kept : ∀ {n : Nat} {owner file : Int} {p : Pipeline},
    w.calls[n]? = some (.uploading owner p) → Made t w₀ es n file →
      p.front.charge? = some file ∨
        (∃ f, p.front = .finished (.error f)) ∧ (Stranded t w₀ es n file ∨ Gone file w.store)

theorem Tidy.start {s : σ} (sound : Sound s) : Tidy t ⟨s, []⟩ [] ⟨s, []⟩ where
  sound := sound
  paced hn := by cases hn
  phased hn := by cases hn
  opened begun := by
    obtain ⟨v, ⟨before, after, split, -⟩, -⟩ := begun
    simp at split
  known made := by
    obtain ⟨now, v, u, ⟨before, after, split, -⟩, -⟩ := made
    simp at split
  le_last made := by
    obtain ⟨now, v, u, ⟨before, after, split, -⟩, -⟩ := made
    simp at split
  apart made := by
    obtain ⟨now, v, u, ⟨before, after, split, -⟩, -⟩ := made
    simp at split
  single made := by
    obtain ⟨now, v, u, ⟨before, after, split, -⟩, -⟩ := made
    simp at split
  charged hn := by cases hn
  kept hn := by cases hn

variable [ConfinedStore σ]

theorem onward_of_step (sound : Sound w.store) (h : step t e w = some v) :
    Onward w.store v.store := by
  cases advance_of_step h with
  | offer | fetch | still | download => exact .same
  | delete hs => exact .confined (ConfinedStore.delete sound hs)
  | upload hn hstep => exact (touched_of_step sound hstep).onward

/-- An event makes a file for an upload that had none. -/
inductive Makes (t : Transfer) (n : Nat) (file : Int) (w v : Traffic σ) : Event → Prop where
  | intro {now : Moment} {owner : Int} {p q : Pipeline}
      (hn : w.calls[n]? = some (.uploading owner p))
      (h : Upload.step t.key owner now .front w.store p = some (v.store, q))
      (hv : v.calls[n]? = some (.uploading owner q)) (hp : p.front.charge? = none)
      (hq : q.front.charge? = some file) (extended : Extended file w.store v.store) :
      Makes t n file w v (.upload n now .front)

omit [ConfinedStore σ] in
theorem Makes.extended (makes : Makes t n file w v e) : Extended file w.store v.store := by
  cases makes
  assumption

/-- A file that a call made was made before, or by the last event. -/
theorem Tidy.made_before (tidy : Tidy t w₀ es w) (run : Run t w₀ es w) (h : step t e w = some v)
    (made : Made t w₀ (es ++ [e]) n file) : Made t w₀ es n file ∨ Makes t n file w v e := by
  rcases made.of_snoc run h with old | ⟨⟨now, rfl⟩, missing, there⟩
  · exact .inl old
  · have extended := (onward_of_step tidy.sound h).extended_of_new missing there
    cases advance_of_step h with
    | still idle => cases idle
    | upload hn hstep =>
      obtain ⟨hp, hq⟩ := (touched_of_step tidy.sound hstep).made extended
      exact .inr ⟨hn, hstep, by rw [getElem?_moveTo hn, if_pos rfl], hp, hq, extended⟩

omit [ConfinedStore σ] in
theorem Tidy.not_made (tidy : Tidy t w₀ es w) (makes : Makes t n file w v e) :
    ¬Made t w₀ es n g := by
  intro made
  cases makes with
  | intro hn h hv hp =>
    rcases tidy.kept hn made with charged | ⟨⟨f, hf⟩, -⟩
    · rw [hp] at charged
      cases charged
    · exact (tidy.paced hn).unfinished h _ hf

omit [ConfinedStore σ] in
/-- A file that was made before has a number below that of a new one. -/
theorem Tidy.lt_of_made (tidy : Tidy t w₀ es w) (made : Made t w₀ es n g)
    (extended : Extended file w.store v.store) : g < file := by
  have := tidy.le_last made
  have := extended.file_eq
  omega

theorem Tidy.kept_after (tidy : Tidy t w₀ es w) (run : Run t w₀ es w) (h : step t e w = some v)
    {p q : Pipeline} (hp : w.calls[n]? = some (.uploading owner p))
    (taken : Taken t n owner w v p e q) (made : Made t w₀ es n file) :
    q.front.charge? = some file ∨ (∃ f, q.front = .finished (.error f)) ∧
      (Stranded t w₀ (es ++ [e]) n file ∨ Gone file v.store) := by
  rcases tidy.kept hp made with charged | ⟨⟨f, hf⟩, left⟩
  · cases taken with
    | nowhere => exact .inl charged
    | on hstep =>
      rcases settled_of_step tidy.sound charged hstep with
        still | ⟨job, f, same, hf, rfl, hq, gone | ⟨g, failed⟩⟩
      · exact .inl still
      · exact .inr ⟨⟨f, hq⟩, .inr gone⟩
      · exact .inr ⟨⟨f, hq⟩,
          .inl ⟨_, w, owner, p, job, f, g, .last run, hp, hf, same, failed⟩⟩
  · cases taken with
    | nowhere =>
      have onward := onward_of_step tidy.sound h
      exact .inr ⟨⟨f, hf⟩, left.imp (·.snoc) (onward.gone · (tidy.le_last made))⟩
    | on hstep => exact absurd hf ((tidy.paced hp).unfinished hstep _)

omit [ConfinedStore σ] in
theorem Tidy.opened_after (tidy : Tidy t w₀ es w) (run : Run t w₀ es w) (h : step t e w = some v)
    {frames : List Message.Item} (begun : Begun t w₀ (es ++ [e]) n owner frames) :
    ∃ q, v.calls[n]? = some (.uploading owner q) ∧ Opened frames q := by
  rcases begun.of_snoc run with old | ⟨rfl, rfl⟩
  · obtain ⟨p, hp, opened⟩ := tidy.opened old
    obtain ⟨q, hq, taken⟩ := uploading_of_step h hp
    refine ⟨q, hq, ?_⟩
    cases taken with
    | nowhere => exact opened
    | on hstep => exact opened.step (tidy.paced hp) hstep
  · cases h
    exact ⟨.start t.workers frames, by simp [join], .waiting rfl rfl⟩

theorem Tidy.charged_after (tidy : Tidy t w₀ es w) (run : Run t w₀ es w)
    (h : step t e w = some v) {q : Pipeline} (hn : v.calls[n]? = some (.uploading owner q))
    (hq : q.front.charge? = some file) : Made t w₀ (es ++ [e]) n file := by
  rcases uploading_before h hn with ⟨p, hp, taken⟩ | ⟨frames, -, -, rfl⟩
  · cases taken with
    | nowhere => exact (tidy.charged hp hq).snoc
    | on hstep =>
      have touched := touched_of_step tidy.sound hstep
      generalize hu : v.store = u at touched
      cases touched with
      | nothing same => exact (tidy.charged hp (same file hq)).snoc
      | new hm _ hq' extended =>
        subst hm
        cases hq.symm.trans hq'
        exact ⟨_, w, v, .last run, h, extended.missing tidy.sound, hu ▸ extended.known⟩
      | own hp' hq' =>
        have same := hq'.resolve_right (by simp [hq])
        cases hq.symm.trans same
        exact (tidy.charged hp (charge?_of_file? hp')).snoc
  · cases hq

theorem Tidy.step (tidy : Tidy t w₀ es w) (run : Run t w₀ es w) (h : step t e w = some v) :
    Tidy t w₀ (es ++ [e]) v := by
  have onward := onward_of_step tidy.sound h
  constructor
  case sound => exact onward.sound tidy.sound
  case paced =>
    intro n owner q hn
    rcases uploading_before h hn with ⟨p, hp, taken⟩ | ⟨frames, -, -, rfl⟩
    · cases taken with
      | nowhere => exact tidy.paced hp
      | on hstep => exact (tidy.paced hp).step hstep
    · exact .start t.workers frames
  case phased =>
    intro n owner q hn
    rcases uploading_before h hn with ⟨p, hp, taken⟩ | ⟨frames, -, -, rfl⟩
    · cases taken with
      | nowhere => exact tidy.phased hp
      | on hstep => exact (tidy.phased hp).step hstep
    · exact .start t.workers frames
  case opened => exact tidy.opened_after run h
  case known =>
    intro n file made
    rcases tidy.made_before run h made with old | makes
    · exact Nat.lt_of_lt_of_le (tidy.known old) (calls_step h)
    · obtain ⟨-, -, hv, -⟩ := makes
      exact (List.getElem?_eq_some_iff.1 hv).1
  case le_last =>
    intro n file made
    rcases tidy.made_before run h made with old | makes
    · exact Int.le_trans (tidy.le_last old) onward.last_le
    · exact Int.le_of_eq makes.extended.last_eq.symm
  case apart =>
    intro n k file hn hk
    rcases tidy.made_before run h hn with oldn | newn <;>
      rcases tidy.made_before run h hk with oldk | newk
    · exact tidy.apart oldn oldk
    · exact absurd (tidy.lt_of_made oldn newk.extended) (Int.lt_irrefl _)
    · exact absurd (tidy.lt_of_made oldk newn.extended) (Int.lt_irrefl _)
    · cases newn
      cases newk
      rfl
  case single =>
    intro n file g hfile hg
    rcases tidy.made_before run h hfile with oldf | newf <;>
      rcases tidy.made_before run h hg with oldg | newg
    · exact tidy.single oldf oldg
    · exact absurd oldf (tidy.not_made newg)
    · exact absurd oldg (tidy.not_made newf)
    · rw [newf.extended.file_eq, newg.extended.file_eq]
  case charged => exact tidy.charged_after run h
  case kept =>
    intro n owner file q hn made
    rcases tidy.made_before run h made with old | makes
    · rcases uploading_before h hn with ⟨p, hp, taken⟩ | ⟨frames, -, rfl, -⟩
      · exact tidy.kept_after run h hp taken old
      · exact absurd (tidy.known old) (Nat.lt_irrefl _)
    · obtain ⟨-, -, hv, -, hq, -⟩ := makes
      cases hn.symm.trans hv
      exact .inl hq

/-- There is order among uploads after every row of events. -/
theorem Run.tidy {s : σ} (sound : Sound s) (run : Run t ⟨s, []⟩ es w) : Tidy t ⟨s, []⟩ es w := by
  induction run with
  | nil => exact .start sound
  | snoc run h ih => exact ih.step run h

/-- Nothing comes back under a number that was given before. -/
theorem Run.gone (sound : Sound w.store) (run : Run t w es v) (gone : Gone file w.store)
    (le : file ≤ last w.store) : Gone file v.store := by
  suffices Sound v.store ∧ file ≤ last v.store ∧ Gone file v.store from this.2.2
  induction run with
  | nil => exact ⟨sound, le, gone⟩
  | snoc run h ih =>
    obtain ⟨sound, le, gone⟩ := ih
    have onward := onward_of_step sound h
    exact ⟨onward.sound sound, Int.le_trans le onward.last_le, onward.gone gone le⟩

/-- A move of an upload changes no file but the one that the upload made. -/
theorem Tidy.alike {now : Moment} {m : Move} (tidy : Tidy t w₀ es w) (run : Run t w₀ es w)
    (h : Traffic.step t (.upload n now m) w = some v)
    (foreign : ¬Made t w₀ (es ++ [.upload n now m]) n g) : Alike g w.store v.store := by
  cases advance_of_step h with
  | still idle => cases idle
  | upload hn hstep =>
    cases touched_of_step tidy.sound hstep with
    | nothing => exact .refl g _
    | new hm _ _ extended =>
      subst hm
      apply extended.alike
      rintro rfl
      exact foreign ⟨_, w, _, .last run, h, extended.missing tidy.sound, extended.known⟩
    | own hp _ confined =>
      apply confined.alike
      rintro rfl
      exact foreign (tidy.charged hn (charge?_of_file? hp)).snoc

/-- An upload shows that it is complete exactly when that is its answer, and that it has failed from
the moment it gives its file up until it answers so; with an answer it makes no more moves. It makes
one file at most and changes no other; one whose first frame is refused changes nothing at all. Of
the file of one that has failed nothing is left, whatever comes later, unless the store failed to
forget it. -/
theorem nothing_left_of_failed {s : σ} (sound : Sound s) (run : Run t ⟨s, []⟩ es w)
    (begun : Begun t ⟨s, []⟩ es n owner frames) :
    ∃ p, w.calls[n]? = some (.uploading owner p) ∧
      (p.phase = .complete ↔ ∃ v, p.front = .finished (.ok v)) ∧
      (p.phase = .failed ↔
        (∃ f, p.front = .finished (.error f)) ∨ ∃ job f, p.front = .purging job f) ∧
      (∀ now m v, step t (.upload n now m) w = some v →
        (∀ answer, p.front ≠ .finished answer) ∧
        (∀ f, offer frames.head? = .error f → v.store = w.store) ∧
        ∀ g, ¬Made t ⟨s, []⟩ (es ++ [.upload n now m]) n g → Alike g w.store v.store) ∧
      (∀ file g, Made t ⟨s, []⟩ es n file → Made t ⟨s, []⟩ es n g → g = file) ∧
      ∀ f, p.front = .finished (.error f) → ∀ file, Made t ⟨s, []⟩ es n file →
        Stranded t ⟨s, []⟩ es n file ∨ ∀ es' v, Run t w es' v → Gone file v.store := by
  have tidy := run.tidy sound
  obtain ⟨p, hn, opened⟩ := tidy.opened begun
  have phased := tidy.phased hn
  refine ⟨p, hn, phased.complete_iff, phased.failed_iff, fun now m v h => ?_,
    fun file g => tidy.single, fun f hf file made => ?_⟩
  · obtain ⟨q, hq, taken⟩ := uploading_of_step h hn
    cases taken with
    | nowhere other => exact absurd rfl other
    | on hstep =>
      have paced := tidy.paced hn
      exact ⟨paced.unfinished hstep, fun f refused => opened.store_eq paced refused hstep,
        fun g => tidy.alike run h⟩
  · rcases tidy.kept hn made with charged | ⟨-, stranded | gone⟩
    · rw [hf] at charged
      cases charged
    · exact .inl stranded
    · exact .inr fun es' v run' => run'.gone tidy.sound gone (tidy.le_last made)

/-- A store that keeps to its contract forgets the files of all failed uploads. -/
theorem not_stranded {τ : Type} [Store τ] [Ledger τ] [LawfulStore τ] {s : τ} (sound : Sound s)
    (empty : ∀ file, record? s file = none) : ¬Stranded t ⟨s, []⟩ es n file := by
  rintro ⟨now, v, owner, p, job, f, g, ⟨before, after, -, run'⟩, hn, hf, rfl, failed⟩
  have orderly := run'.orderly sound empty
  obtain ⟨frames, -, inv⟩ := orderly.stands hn
  obtain ⟨-, r, hr⟩ := inv.of_purging hf
  have outcome := LawfulStore.purge job.file orderly.sound
  rw [failed] at outcome
  cases outcome with
  | missing gone =>
    rw [gone] at hr
    cases hr

/-- One byte is announced and two are sent: of the file that was made nothing is left. -/
theorem nothing_left_of_two_bytes :
    let t : Transfer := ⟨1, ⟨List.replicate 32 0, List.length_replicate⟩, Nat.one_pos⟩
    let front : Event := .upload 0 default .front
    let worker : Event := .upload 0 default (.worker 0 none)
    let accumulator : Event := .upload 0 default .accumulator
    let frames : List Message.Item :=
      [.ok (.metadata { originalSize := 1, chunkSize := 1, totalChunks := 1 }),
        .ok (.chunk { data := [7, 7], isLast := true })]
    let es : List Event :=
      [.offer 5 frames, front, front, front, worker, worker, accumulator, front, front]
    ∃ (w : Traffic Resident) (p : Pipeline) (f : Failure), Run t ⟨{}, []⟩ es w ∧
      w.calls[0]? = some (.uploading 5 p) ∧ p.phase = .failed ∧ p.front = .finished (.error f) ∧
      Made t ⟨({} : Resident), []⟩ es 0 1 ∧ ∀ es' v, Run t w es' v → Gone 1 v.store := by
  intro t front worker accumulator frames es
  have created : (([.offer 5 frames, front].foldlM (fun w e => Traffic.step t e w)
      (⟨{}, []⟩ : Traffic Resident)).bind fun v => (Traffic.step t front v).map fun u =>
        (record? v.store 1).isNone && (record? u.store 1).isSome) = some true := by decide +kernel
  have failed : ((es.foldlM (fun w e => Traffic.step t e w) (⟨{}, []⟩ : Traffic Resident)).map
      fun w => w.calls.map fun c => match c with
        | .uploading _ p => (p.phase, p.front.charge?)
        | .downloading _ => (.awaitingMetadata, none)) = some [(.failed, none)] := by decide +kernel
  obtain ⟨v, hv, created⟩ := Option.bind_eq_some_iff.1 created
  obtain ⟨u, hu, created⟩ := Option.map_eq_some_iff.1 created
  obtain ⟨w, hw, failed⟩ := Option.map_eq_some_iff.1 failed
  rw [Bool.and_eq_true, Option.isNone_iff_eq_none] at created
  have run := Run.of_foldlM hw
  have made : Made t ⟨({} : Resident), []⟩ es 0 1 :=
    ⟨default, v, u, ⟨_, _, rfl, Run.of_foldlM hv⟩, hu, created.1, created.2⟩
  have begun : Begun t ⟨({} : Resident), []⟩ es 0 5 frames := ⟨_, ⟨[], _, rfl, .nil⟩, rfl⟩
  obtain ⟨p, hn, -, hfailed, -, -, settled⟩ :=
    nothing_left_of_failed Resident.sound_empty run begun
  have first := congrArg (·[0]?) failed
  simp only [List.getElem?_map, hn, Option.map_some, List.getElem?_cons_zero, Option.some.injEq,
    Prod.mk.injEq] at first
  obtain ⟨phase, charge⟩ := first
  obtain ⟨f, hf⟩ : ∃ f, p.front = .finished (.error f) := by
    refine (hfailed.1 phase).resolve_right ?_
    rintro ⟨job, f, hf⟩
    rw [hf] at charge
    cases charge
  have stranded : ¬Stranded t ⟨({} : Resident), []⟩ es 0 1 :=
    not_stranded Resident.sound_empty fun _ => rfl
  exact ⟨w, p, f, run, hn, phase, hf, made, (settled f hf 1 made).resolve_left stranded⟩

end Strongbox.Traffic
