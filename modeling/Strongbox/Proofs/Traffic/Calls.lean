import Strongbox.Proofs.Store.History
import Strongbox.Proofs.Traffic

/-!
# Traffic is calls of the store

All that uploads, downloads and users do to a store is done by calling its operations. What holds
of a store whatever calls are made of it holds whatever traffic there is.
-/

namespace Strongbox

variable {σ : Type} [Store σ] {h : Store.History σ}

/-- What a move of an upload leaves in a store is left there by one call, or by none. -/
theorem Upload.calls_of_move {key : Key} {owner : Int} {now : Moment} {m : Upload.Move}
    {p q : Upload.Pipeline} {t : σ} (hstep : Upload.step key owner now m h.store p = some (t, q)) :
    ∃ calls, calls.length ≤ 1 ∧ (h.afterAll calls).store = t := by
  have one (call : Store.Call) (made : (h.after call).store = t) :
      ∃ calls, calls.length ≤ 1 ∧ (h.afterAll calls).store = t := ⟨[call], Nat.le_refl _, made⟩
  cases m with
  | worker n iv =>
    cases stepWorker_eq_some_iff.1 hstep with
    | idle | drop | begin | fail | report => exact ⟨[], Nat.zero_le _, rfl⟩
    | @store piece file t hw hf hs =>
      obtain ⟨c, -, saved⟩ := bind_eq_ok_iff.1 hs
      refine one (.save file piece.index c) ?_
      rw [Store.History.after, saved, Store.History.note]
  | accumulator =>
    obtain ⟨q', -, heq⟩ := Option.map_eq_some_iff.1 hstep
    cases heq
    exact ⟨[], Nat.zero_le _, rfl⟩
  | front =>
    cases stepFront_eq_some_iff.1 hstep with
    | accept | refuse | miss | heed | rest | receive | reject | enqueue | doom | pass | lack
    | spoil | leave => exact ⟨[], Nat.zero_le _, rfl⟩
    | @create o file t hf hs =>
      refine one (.create now owner o.draft) ?_
      rw [Store.History.after, hs]
    | @complete job t hf hs =>
      refine one (.complete job.file p.tally) ?_
      rw [Store.History.after, hs, Store.History.note]
    | @purge job f t hf hs =>
      refine one (.purge job.file) ?_
      rw [Store.History.after, hs, Store.History.note]

namespace Traffic

variable {tr : Transfer} {e : Event} {w v : Traffic σ}

/-- What an event leaves in a store is left there by one call, or by none. -/
theorem calls_of_event (same : h.store = w.store) (hstep : step tr e w = some v) :
    ∃ calls, calls.length ≤ 1 ∧ (h.afterAll calls).store = v.store := by
  cases advance_of_step hstep with
  | offer | fetch | still | download => exact ⟨[], Nat.zero_le _, same⟩
  | @delete user file s hs =>
    refine ⟨[.delete user file], Nat.le_refl _, ?_⟩
    show (h.after (.delete user file)).store = s
    rw [Store.History.after, same, hs, Store.History.note]
  | upload hn hmove => exact Upload.calls_of_move (same ▸ hmove)

/-- What any traffic leaves in a store is left there by some calls, by no more than there are
events. -/
theorem Run.calls {es : List Event} (run : Run tr w es v) (same : h.store = w.store) :
    ∃ calls, calls.length ≤ es.length ∧ (h.afterAll calls).store = v.store := by
  induction run with
  | nil => exact ⟨[], Nat.le_refl _, same⟩
  | snoc _ hstep ih =>
    obtain ⟨calls, fewer, now⟩ := ih
    obtain ⟨more, one, after⟩ := calls_of_event now hstep
    refine ⟨calls ++ more, ?_, by rw [Store.History.afterAll_append, after]⟩
    simp only [List.length_append, List.length_cons, List.length_nil]
    omega

theorem Reaches.calls (reaches : Reaches tr w v) (same : h.store = w.store) :
    ∃ calls, (h.afterAll calls).store = v.store := by
  obtain ⟨es, run⟩ := reaches_iff_run.1 reaches
  obtain ⟨calls, -, after⟩ := run.calls same
  exact ⟨calls, after⟩

end Traffic

end Strongbox
