import Strongbox.Proofs.Download.Course
import Strongbox.Proofs.Upload.Invariant
import Strongbox.Upload

/-!
# Two stores side by side

Transfers that make the same moves on two stores. Where the operations that a transfer uses have the
same outcomes on both, so has the transfer.
-/

namespace Strongbox

/-- Two results fail alike, or have values that go together. -/
inductive Agree {ε α β : Type} (R : α → β → Prop) : Except ε α → Except ε β → Prop where
  | error (e : ε) : Agree R (.error e) (.error e)
  | ok {a : α} {b : β} (h : R a b) : Agree R (.ok a) (.ok b)

/-- Two records tell the same, except when they were made. -/
def Record.Concurs (a b : Record) : Prop := b = { a with createdAt := b.createdAt }

namespace Upload

open Message Ledger

/-- The operations of two stores have the same outcomes for an upload. States of the two go together
as `R` says, given the file that the upload is at work on. -/
structure Twins {σ τ : Type} [Store σ] [Store τ] (owner : Int) (now : Moment) (Fits : Draft → Prop)
    (R : Option Int → σ → τ → Prop) : Prop where
  free {s : σ} {t : τ} {file : Int} : R (some file) s t → R none s t
  create {s : σ} {t : τ} {d : Draft} : R none s t → Fits d →
    Agree (fun a b => a.1 = b.1 ∧ R (some a.1) a.2 b.2) (Store.create s now owner d)
      (Store.create t now owner d)
  save {s : σ} {t : τ} {file : Int} {index : Nat} {c : Sealed} : R (some file) s t →
    c.algorithm = algorithmName →
    Agree (R (some file)) (Store.save s file index c) (Store.save t file index c)
  complete {s : σ} {t : τ} {file : Int} {bytes : Nat} : R (some file) s t →
    bytes ≤ Word.maxInt64 →
    Agree (R none) (Store.complete s file bytes) (Store.complete t file bytes)
  purge {s : σ} {t : τ} {file : Int} : R (some file) s t →
    Agree (R none) (Store.purge s file) (Store.purge t file)

variable {σ τ : Type} [Store σ] [Store τ] {owner : Int} {now : Moment} {Fits : Draft → Prop}
  {R : Option Int → σ → τ → Prop} {key : Key} {s : σ} {t : τ} {p : Pipeline}

/-- Pipelines that are where each other is, with stores that go together. -/
def Abreast (R : Option Int → σ → τ → Prop) (a : σ × Pipeline) (b : τ × Pipeline) : Prop :=
  a.2 = b.2 ∧ R a.2.front.file? a.1 b.1

theorem Twins.front (twins : Twins owner now Fits R) (h : R p.front.file? s t)
    (fits : ∀ o, p.front = .creating o → Fits o.draft)
    (small : ∀ job, p.front = .completing job → p.tally ≤ Word.maxInt64) :
    Option.Rel (Abreast R) (stepFront owner now s p) (stepFront owner now t p) := by
  unfold stepFront
  cases hf : p.front with
  | opening =>
    rw [hf] at h
    dsimp only
    split <;> exact .some ⟨rfl, h⟩
  | creating o =>
    rw [hf] at h
    have outcome := twins.create h (fits o hf)
    dsimp only
    generalize Store.create s now owner o.draft = a at outcome
    generalize Store.create t now owner o.draft = b at outcome
    cases outcome with
    | error e => exact .some ⟨rfl, h⟩
    | ok both =>
      obtain ⟨same, related⟩ := both
      exact .some ⟨by rw [same], related⟩
  | receiving job =>
    rw [hf] at h
    dsimp only
    split
    · exact .some ⟨rfl, h⟩
    · exact .some ⟨rfl, h⟩
    · split <;> exact .some ⟨rfl, h⟩
  | enqueuing job piece =>
    rw [hf] at h
    dsimp only
    split
    · exact .some ⟨rfl, h⟩
    · exact .none
  | draining job failure =>
    rw [hf] at h
    dsimp only
    split
    · split
      · exact .some ⟨rfl, h⟩
      · split <;> exact .some ⟨rfl, h⟩
    · exact .none
  | completing job =>
    have h' := h
    rw [hf] at h'
    have outcome := twins.complete h' (small job hf)
    dsimp only
    generalize Store.complete s job.file p.tally = a at outcome
    generalize Store.complete t job.file p.tally = b at outcome
    cases outcome with
    | error e => exact .some ⟨rfl, h'⟩
    | ok related => exact .some ⟨rfl, related⟩
  | purging job f =>
    rw [hf] at h
    have outcome := twins.purge h
    dsimp only
    generalize Store.purge s job.file = a at outcome
    generalize Store.purge t job.file = b at outcome
    cases outcome with
    | error e => exact .some ⟨rfl, twins.free h⟩
    | ok related => exact .some ⟨rfl, related⟩
  | finished verdict => exact .none

theorem Twins.worker (twins : Twins owner now Fits R) (h : R p.front.file? s t) (n : Nat)
    (iv : Option Nonce) :
    Option.Rel (Abreast R) (stepWorker key s p n iv) (stepWorker key t p n iv) := by
  unfold stepWorker
  split
  · exact .some ⟨rfl, h⟩
  · rename_i piece hw
    cases hfile : p.front.file? with
    | none => exact .none
    | some file =>
      have outcome : Agree (R (some file)) (storePiece key file iv s piece)
          (storePiece key file iv t piece) := by
        unfold storePiece
        cases hc : sealPiece key iv piece with
        | error f => exact .error f
        | ok c => exact twins.save (hfile ▸ h) (piece?_of_sealPiece file hc).1
      dsimp only
      generalize storePiece key file iv s piece = a at outcome
      generalize storePiece key file iv t piece = b at outcome
      cases outcome with
      | error e => exact .some ⟨rfl, h⟩
      | ok related => exact .some ⟨rfl, hfile ▸ related⟩
  · split
    · exact .some ⟨rfl, h⟩
    · exact .none
  · cases p.toCrew.stepIdle .taken n with
    | none => exact .none
    | some c => exact .some ⟨rfl, h⟩

variable [Ledger σ] {items : List Item}

/-- A move that can be made on one store can be made on the other, and leads to the same place. -/
theorem Twins.step (twins : Twins owner now Fits R) (h : R p.front.file? s t)
    (inv : Inv key owner items s p) (fits : ∀ o, offer items.head? = .ok o → Fits o.draft)
    (m : Move) :
    Option.Rel (Abreast R) (step key owner now m s p) (step key owner now m t p) := by
  cases m with
  | front =>
    exact twins.front h (fun o hf => fits o (inv.of_creating hf).2.2) fun job hf => inv.tally_le hf
  | worker n iv => exact twins.worker h n iv
  | accumulator =>
    have same : ∀ {q}, stepAccumulator p = some q → q.front.file? = p.front.file? := by
      intro q hq
      cases stepAccumulator_eq_some_iff.1 hq <;> rfl
    simp only [Upload.step]
    cases hq : stepAccumulator p with
    | none => exact .none
    | some q => exact .some ⟨rfl, by rw [same hq]; exact h⟩

variable [LawfulStore σ]

/-- A row of moves on two stores that go together leads to the same place on both. -/
theorem Twins.run (twins : Twins owner now Fits R) (sound : Sound s) (h : R p.front.file? s t)
    (inv : Inv key owner items s p) (fits : ∀ o, offer items.head? = .ok o → Fits o.draft)
    (schedule : Schedule Move) :
    Abreast R ((machine key owner now).run schedule (s, p))
      ((machine key owner now).run schedule (t, p)) := by
  refine (Machine.rel_run (R := fun a b => Abreast R a b ∧ Sound a.1 ∧ Inv key owner items a.1 a.2)
    ?_ ?_ ⟨⟨rfl, h⟩, sound, inv⟩).1
  · rintro a b ⟨⟨same, -⟩, -⟩
    exact ⟨congrArg Pipeline.weight same, congrArg (·.workers.length) same⟩
  · rintro ⟨s, p⟩ ⟨t, _⟩ m ⟨⟨rfl, h⟩, sound, inv⟩
    have both := twins.step h inv fits m
    show Option.Rel _ (Upload.step key owner now m s p) (Upload.step key owner now m t p)
    generalize hs : Upload.step key owner now m s p = a at both
    generalize Upload.step key owner now m t p = b at both
    cases both with
    | none => exact .none
    | some related =>
      obtain ⟨framed, inv'⟩ := inv.step sound hs
      exact .some ⟨related, framed.sound, inv'⟩

/-- An upload has the same answer on two stores that go together, and they go together after it. -/
theorem Twins.upload (twins : Twins owner now Fits R) (sound : Sound s) (h : R none s t)
    (tr : Transfer) (schedule : Schedule Move)
    (fits : ∀ o, offer items.head? = .ok o → Fits o.draft) :
    (upload tr schedule owner now items s).1 = (upload tr schedule owner now items t).1 ∧
      R none (upload tr schedule owner now items s).2 (upload tr schedule owner now items t).2 := by
  have start := Inv.start tr.key owner tr.workers items s
  obtain ⟨same, related⟩ := twins.run (p := .start tr.workers items) sound h start fits schedule
  refine ⟨congrArg Pipeline.verdict same, ?_⟩
  cases hfile :
    ((machine tr.key owner now).run schedule (s, .start tr.workers items)).2.front.file? with
  | none => exact hfile ▸ related
  | some file => exact twins.free (hfile ▸ related)

end Upload

namespace Download

variable {σ τ : Type} [Store σ] [Store τ] {key : Key} {s : σ} {t : τ} {d e : Distributor}

/-- The ranges that are still to be fetched have the same chunks on both stores. -/
def SameRanges (s : σ) (t : τ) (d : Distributor) : Prop :=
  ∀ range, .fetching range ∈ d.workers → Store.chunks s d.file range = Store.chunks t d.file range

theorem SameRanges.step_eq (same : SameRanges s t d) (m : Move) :
    step key m s d = step key m t d := by
  cases m with
  | worker n =>
    simp only [step, stepWorker]
    cases hw : d.workers[n]? with
    | none => rfl
    | some w =>
      cases w with
      | fetching range =>
        dsimp only
        rw [same range (List.mem_of_getElem? hw)]
      | opening chunks => cases chunks <;> rfl
      | sending frame others | exited => rfl
  | closer | reader | hangUp => rfl

theorem mem_of_mem_set {n : Nat} {w : Worker} {range : Span} {ws : List Worker}
    (h : .fetching range ∈ ws.set n w) (moved : w ≠ .fetching range) : .fetching range ∈ ws :=
  (List.mem_or_eq_of_mem_set h).resolve_right fun same => moved same.symm

theorem fetching_of_step {m : Move} (h : step key m s d = some e) :
    e.file = d.file ∧ ∀ range, .fetching range ∈ e.workers → .fetching range ∈ d.workers := by
  cases m with
  | worker n =>
    have move := workerMove_of_step h
    generalize Move.fault? key s d (.worker n) = fault at move
    cases move with
    | crash | miss | lack | fetch | finish | stop | spoil | reveal | quit | send =>
      exact ⟨rfl, fun range hr => mem_of_mem_set hr nofun⟩
  | closer =>
    cases closerMove_of_step h with
    | doom | close | quit | report => exact ⟨rfl, fun range hr => hr⟩
  | reader =>
    simp only [step] at h
    split at h <;> cases h
    exact ⟨rfl, fun range hr => hr⟩
  | hangUp =>
    simp only [step] at h
    split at h <;> cases h
    exact ⟨rfl, fun range hr => hr⟩

/-- A download sends the same from two stores that have the same chunks in its ranges. -/
theorem SameRanges.run_eq (same : SameRanges s t d) (schedule : Schedule Move) :
    (machine key s).run schedule d = (machine key t).run schedule d := by
  refine (Machine.rel_run (M := machine key s) (N := machine key t)
    (R := fun d e => d = e ∧ SameRanges s t d) ?_ ?_ ⟨rfl, same⟩).1
  · rintro d _ ⟨rfl, -⟩
    exact ⟨rfl, rfl⟩
  · rintro d _ m ⟨rfl, same⟩
    have moved : step key m s d = step key m t d := same.step_eq m
    simp only [machine, ← moved]
    cases hm : step key m s d with
    | none => exact .none
    | some e =>
      obtain ⟨file_eq, fetching⟩ := fetching_of_step hm
      exact .some ⟨rfl, fun range hr => file_eq ▸ same range (fetching range hr)⟩

/-- Only ranges that do not end before they begin are fetched. -/
theorem ordered_of_start {r : Record} {ranges : List Span} {range : Span}
    (h : .fetching range ∈ (Distributor.start r ranges).workers) : range.start ≤ range.stop := by
  simp only [Distributor.start, List.mem_map, List.mem_filter, Bool.not_eq_true',
    Span.isEmpty, decide_eq_false_iff_not, Worker.fetching.injEq, exists_eq_right] at h
  omega

end Download

/-- A reader gets the same from two stores that tell its owner the same of a file, and have the same
chunks of it. -/
theorem download_eq_of_info {σ τ : Type} [Store σ] [Store τ] {s : σ} {t : τ} {owner file : Int}
    (info : Agree Record.Concurs (Store.info s file owner) (Store.info t file owner))
    (chunks : ∀ r range, Store.info s file owner = .ok r → range.start ≤ range.stop →
      Store.chunks s r.id range = Store.chunks t r.id range)
    (tr : Transfer) (schedule : Schedule Download.Move) :
    download tr schedule owner file s = download tr schedule owner file t := by
  unfold download Download.begin
  generalize Store.info s file owner = a at info chunks
  generalize Store.info t file owner = b at info
  cases info with
  | error f => rfl
  | @ok r r' concur =>
    have available_eq : r'.isAvailable = r.isAvailable := by rw [concur]; rfl
    have total_eq : r'.totalChunks = r.totalChunks := by rw [concur]
    have start_eq (ranges : List Span) :
        Download.Distributor.start r' ranges = Download.Distributor.start r ranges := by
      rw [concur]
      rfl
    simp only [available_eq, total_eq, start_eq]
    split
    · split
      · rfl
      · refine congrArg (fun d => Except.ok (Download.Distributor.taken d)) ?_
        exact Download.SameRanges.run_eq (fun range hr => chunks r range rfl
          (Download.ordered_of_start hr)) schedule
    · rfl

end Strongbox
