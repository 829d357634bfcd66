import Strongbox.Proofs.Upload.Invariant

/-!
# The file in the charge of an upload

Which file an upload has made and not removed, what it holds, and how that changes with a move.
-/

namespace Strongbox.Upload

open Ledger Message

variable {σ : Type} [Ledger σ] {key : Key} {owner file : Int} {items : List Item} {s t : σ}
  {p q : Pipeline}

/-- The upload holds pieces of its plan in a file: all of them when the file is complete, and until
then it is at work on the file. -/
structure Charge (key : Key) (owner : Int) (items : List Item) (o : Offer) (file : Int)
    (complete : Bool) (s : σ) (p : Pipeline) (ps : List Piece) : Prop where
  offered : offer items.head? = .ok o
  fits : ∀ t ∈ ps, o.plan.Fits t
  held : Held key owner o file complete s ps
  all : complete = true → (ps.map (·.index)).Perm (List.range o.plan.total)
  at_work : complete = false → p.front.file? = some file

theorem Inv.charge (inv : Inv key owner items s p) (hc : p.front.charge? = some file) :
    ∃ o complete ps, Charge key owner items o file complete s p ps := by
  cases inv with
  | opening hf | creating hf | failed hf =>
    rw [hf] at hc
    cases hc
  | @working o _ h work =>
    have hfile := file?_of_working? work.at_work
    cases (charge?_of_file? hfile).symm.trans hc
    exact ⟨o, false, h.saved, work.offered, work.fits_saved, work.held, nofun, fun _ => hfile⟩
  | completing hf still passed held =>
    rw [hf] at hc
    cases hc
    exact ⟨_, false, _, passed.offered, fits_of_read passed.read, held, nofun,
      fun _ => by rw [hf]; rfl⟩
  | purging hf still offered fits held =>
    rw [hf] at hc
    cases hc
    exact ⟨_, false, _, offered, fits, held, nofun, fun _ => by rw [hf]; rfl⟩
  | done hf still passed held =>
    rw [hf] at hc
    cases hc
    exact ⟨_, true, _, passed.offered, fits_of_read passed.read, held, fun _ => passed.all, nofun⟩

variable [Store σ] [LawfulStore σ] {now : Moment} {m : Move} {r : Record}

/-- A move brings no file into the charge of an upload but one that it has just made. -/
theorem charge?_of_step (sound : Sound s)
    (h : step key owner now m s p = some (t, q)) (hc : q.front.charge? = some file) :
    p.front.charge? = some file ∨
      m = .front ∧ record? s file = none ∧ (record? t file).isSome ∧
        last s < file ∧ file ≤ last t := by
  cases m with
  | worker n iv =>
    cases stepWorker_eq_some_iff.1 h <;> exact .inl hc
  | accumulator =>
    obtain ⟨q', hq, heq⟩ := Option.map_eq_some_iff.1 h
    cases heq
    cases stepAccumulator_eq_some_iff.1 hq <;> exact .inl hc
  | front =>
    cases stepFront_eq_some_iff.1 h with
    | accept hf | refuse hf | miss hf | purge hf | leave hf => cases hc
    | heed hf | rest hf | receive hf | reject hf | enqueue hf | doom hf | pass hf | lack hf
    | complete hf | spoil hf =>
      rw [hf]
      exact .inl hc
    | @create o file' t hf hs =>
      cases hc
      have outcome := LawfulStore.create now owner o.draft sound
      rw [hs] at outcome
      cases outcome with
      | done isNew tells sound' last_eq record_eq rows_eq =>
        have missing := LawfulStore.record?_of_last_lt sound (Int.lt_succ (last s))
        refine .inr ⟨rfl, missing, ?_, Int.lt_succ _, Int.le_of_eq last_eq.symm⟩
        rw [record_eq, if_pos rfl]
        rfl

theorem record_of_worker {n : Nat} {iv : Option Nonce} (sound : Sound s)
    (m : WorkerMove key n iv s p t q) (g : Int) : record? t g = record? s g := by
  cases m with
  | idle | drop | begin | fail | report => rfl
  | @store t file u hw hf hs =>
    obtain ⟨changes, record_eq, -⟩ := storePiece_eq_ok sound hs
    by_cases hg : g = file
    · rw [hg, record_eq]
    · exact changes.record_eq g hg

/-- The records after a move are of the file in the charge of the upload, or they are as before and
were not in its charge. -/
theorem Inv.record_of_step (inv : Inv key owner items s p) (sound : Sound s)
    (h : Upload.step key owner now m s p = some (t, q)) (hr : record? t file = some r) :
    q.front.charge? = some file ∨ record? s file = some r ∧ p.front.charge? ≠ some file := by
  by_cases other : q.front.charge? = some file
  · exact .inl other
  -- So the move must not have let go of the file: a worker, the accumulator and most moves of the
  -- front leave the charge alone, and a move that ends it has changed another file.
  right
  cases m with
  | worker n iv =>
    have move := stepWorker_eq_some_iff.1 h
    refine ⟨record_of_worker sound move file ▸ hr, ?_⟩
    cases move <;> exact other
  | accumulator =>
    obtain ⟨q', hq, heq⟩ := Option.map_eq_some_iff.1 h
    cases heq
    refine ⟨hr, ?_⟩
    cases stepAccumulator_eq_some_iff.1 hq <;> exact other
  | front =>
    cases stepFront_eq_some_iff.1 h with
    | accept hf | refuse hf | miss hf =>
      rw [hf]
      exact ⟨hr, nofun⟩
    | heed hf | rest hf | receive hf | reject hf | enqueue hf | doom hf | pass hf | lack hf
    | spoil hf =>
      rw [hf]
      exact ⟨hr, other⟩
    | @create o file' t hf hs =>
      have outcome := LawfulStore.create now owner o.draft sound
      rw [hs] at outcome
      cases outcome with
      | done isNew tells sound' last_eq record_eq rows_eq =>
        rw [hf]
        have elsewhere : file ≠ last s + 1 := fun e => other (congrArg some e.symm)
        rw [record_eq, if_neg elsewhere] at hr
        exact ⟨hr, nofun⟩
    | @complete job t hf hs =>
      have outcome := inv.completing_outcome sound hf
      rw [hs] at outcome
      cases outcome with
      | done live filled changes record_eq rows_eq =>
        have elsewhere : file ≠ job.file := fun e => other (congrArg some e.symm)
        rw [hf]
        exact ⟨changes.record_eq file elsewhere ▸ hr, fun e => elsewhere (Option.some.inj e).symm⟩
    | @purge job f t hf hs =>
      have outcome := LawfulStore.purge job.file sound
      rw [hs] at outcome
      cases outcome with
      | done changes record_eq rows_eq =>
        have elsewhere : file ≠ job.file := by
          rintro rfl
          rw [record_eq] at hr
          cases hr
        rw [hf]
        exact ⟨changes.record_eq file elsewhere ▸ hr, fun e => elsewhere (Option.some.inj e).symm⟩
    | @leave job f g hf hs =>
      have outcome := LawfulStore.purge job.file sound
      rw [hs] at outcome
      cases outcome with
      | missing gone =>
        obtain ⟨-, r, hr⟩ := inv.of_purging hf
        rw [gone] at hr
        cases hr

end Strongbox.Upload
