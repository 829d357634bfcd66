import Strongbox.Proofs.Traffic.Contents

/-!
# How long files last
-/

namespace Strongbox

open Ledger

variable {σ : Type} [Store σ] [Ledger σ] [LawfulStore σ] {s u : σ} {file : Int} {r : Record}

/-- No upload deletes a file, provided that a tally fits its word. -/
theorem Upload.deleted_of_step {key : Key} {owner : Int} {now : Moment} {m : Upload.Move}
    {p q : Upload.Pipeline} (sound : Sound s)
    (fits : ∀ job, p.front = .completing job → p.tally ≤ Word.maxInt64)
    (h : Upload.step key owner now m s p = some (u, q)) (hr : record? u file = some r)
    (deleted : r.isDeleted = true) : record? s file = some r := by
  cases m with
  | worker n iv => exact record_of_worker sound (stepWorker_eq_some_iff.1 h) file ▸ hr
  | accumulator =>
    obtain ⟨q', -, heq⟩ := Option.map_eq_some_iff.1 h
    cases heq
    exact hr
  | front =>
    cases stepFront_eq_some_iff.1 h with
    | accept | refuse | miss | heed | rest | receive | reject | enqueue | doom | pass | lack | spoil
    | leave => exact hr
    | @create o g u hf hs =>
      have outcome := LawfulStore.create now owner o.draft sound
      rw [hs] at outcome
      cases outcome with
      | done isNew tells sound' last_eq record_eq rows_eq =>
        rw [record_eq] at hr
        split at hr
        · cases hr
          rw [isNew.visible] at deleted
          cases deleted
        · exact hr
    | @complete job u hf hs =>
      have outcome := LawfulStore.complete job.file sound (fits job hf)
      rw [hs] at outcome
      cases outcome with
      | @done r' u live filled changes record_eq rows_eq =>
        by_cases hg : file = job.file
        · rw [hg, record_eq] at hr
          cases hr
          rw [Record.completed, (live?_eq_some_iff.1 live).2] at deleted
          cases deleted
        · exact (changes.record_eq file hg).symm.trans hr
    | @purge job f u hf hs =>
      have outcome := LawfulStore.purge job.file sound
      rw [hs] at outcome
      cases outcome with
      | done changes record_eq rows_eq =>
        by_cases hg : file = job.file
        · rw [hg, record_eq] at hr
          cases hr
        · exact (changes.record_eq file hg).symm.trans hr

/-- A file that an event deletes is deleted by its owner, provided that tallies fit their word. -/
theorem Traffic.deleted_of_step {t : Transfer} {e : Traffic.Event} {w v : Traffic σ}
    (sound : Sound w.store)
    (fits : ∀ (n : Nat) (owner : Int) (p : Upload.Pipeline) (job : Upload.Job),
      w.calls[n]? = some (.uploading owner p) → p.front = .completing job → p.tally ≤ Word.maxInt64)
    (h : Traffic.step t e w = some v) (hr : record? v.store file = some r)
    (deleted : r.isDeleted = true) :
    record? w.store file = some r ∨
      e = .delete r.owner file ∧ ∃ s, Store.delete w.store r.owner file = .ok s := by
  cases advance_of_step h with
  | offer | fetch | still | download => exact .inl hr
  | @delete user g s hs =>
    have outcome := LawfulStore.delete user g sound
    rw [hs] at outcome
    cases outcome with
    | @done r' s live owned changes record_eq rows_eq =>
      by_cases hg : file = g
      · subst hg
        cases record_eq.symm.trans hr
        have same : r'.deleted.owner = user := owned
        exact .inr ⟨by rw [same], _, by rw [same]; exact hs⟩
      · exact .inl ((changes.record_eq file hg).symm.trans hr)
  | @upload n now m owner p q s hn hstep =>
    exact .inl (Upload.deleted_of_step sound (fun job => fits n owner p job hn) hstep hr deleted)

section Complete

variable {key : Key} {owner : Int} {items : List Message.Item} {now : Moment} {m : Upload.Move}
  {p : Upload.Pipeline}

omit [Store σ] [LawfulStore σ] in
/-- An upload in charge of a complete file is done: it has accepted its stream, and the file holds
it. -/
theorem Upload.Inv.accepted (inv : Upload.Inv key owner items s p)
    (hc : p.front.charge? = some file) (hr : record? s file = some r)
    (complete : r.isComplete = true) :
    (∃ v, p.front = .finished (.ok v)) ∧ Upload.Still p ∧
      ∃ o ps, Upload.Passed items o ps ∧ Upload.Held key owner o file true s ps := by
  have incomplete : ∀ {o ps}, ¬Upload.Held key owner o file false s ps := by
    intro o ps held
    obtain ⟨r', hr', -, hfinished⟩ := held.record
    cases hr.symm.trans hr'
    rw [complete] at hfinished
    cases hfinished
  cases inv with
  | opening hf | creating hf | failed hf =>
    rw [hf] at hc
    cases hc
  | working work =>
    have hfile := Upload.charge?_of_file? (Upload.file?_of_working? work.at_work)
    cases hfile.symm.trans hc
    exact absurd work.held incomplete
  | completing hf still passed held | purging hf still offered fits held =>
    rw [hf] at hc
    cases hc
    exact absurd held incomplete
  | done hf still passed held =>
    rw [hf] at hc
    cases hc
    exact ⟨⟨_, hf⟩, still, _, _, passed, held⟩

omit [LawfulStore σ] in
theorem Upload.Inv.settled (inv : Upload.Inv key owner items s p)
    (hc : p.front.charge? = some file) (hr : record? s file = some r)
    (complete : r.isComplete = true) : Upload.step key owner now m s p = none := by
  obtain ⟨⟨v, hf⟩, still, -⟩ := inv.accepted hc hr complete
  cases m with
  | worker n iv =>
    cases h : Upload.step key owner now (.worker n iv) s p with
    | none => rfl
    | some u => exact (still.no_worker (Upload.stepWorker_eq_some_iff.1 h)).elim
  | accumulator =>
    cases h : Upload.stepAccumulator p with
    | none => rw [Upload.step, h, Option.map_none]
    | some q => exact (still.no_accumulator (Upload.stepAccumulator_eq_some_iff.1 h)).elim
  | front => simp only [Upload.step, Upload.stepFront, hf]

end Complete

namespace Traffic

variable {t : Transfer} {w₀ w v : Traffic σ} {es es' : List Event} {e : Event}

/-- A complete file is left alone, but that it may be deleted. -/
theorem Orderly.spares_complete (orderly : Orderly t w₀ es w) (hr : record? w.store file = some r)
    (complete : r.isComplete = true) (h : Traffic.step t e w = some v) :
    Spared file w.store v.store := by
  obtain ⟨n, owner, p, hn, hc⟩ := orderly.kept hr
  by_cases own : e.call? = some n
  · obtain ⟨frames, -, inv⟩ := orderly.stands hn
    obtain ⟨now, m, s, q, -, hstep, -⟩ := (advance_of_step h).of_uploading own hn
    rw [inv.settled hc hr complete] at hstep
    cases hstep
  · exact orderly.spares hn hc h own

/-- A complete file holds what it held, whatever else happens. -/
theorem Run.held {s₀ : σ} {owner : Int} {key : Key} {o : Upload.Offer} {ps : List Piece}
    (sound : Sound s₀) (empty : files s₀ = []) (run : Run t ⟨s₀, []⟩ es w) (run' : Run t w es' v)
    (held : Upload.Held key owner o file true w.store ps) :
    Upload.Held key owner o file true v.store ps := by
  induction run' with
  | nil => exact held
  | snoc run' h ih =>
    obtain ⟨r, hr, -, complete⟩ := ih.record
    have orderly := (run.append run').orderly_of_empty sound empty
    exact ih.spared (orderly.spares_complete hr complete h)

end Traffic

end Strongbox
