import Strongbox.Proofs.Store.Tenants
import Strongbox.Proofs.Twins
import Strongbox.Service

/-!
# What a user learns and changes

Nothing that a user asks for depends on the files of others, and nothing that a user does changes
them.

## Main definitions

* `Service.Apart`: a store after a user has been at work, and the same store narrowed to that user.

## Main statements

* `Service.isolation`: every request has the same answer in a store without the files of others,
  and spares them; a file of another, a deleted one and none at all look the same.
-/

namespace Strongbox

open Ledger Narrow

variable {σ : Type} [Ledger σ] [Labelled σ] {s s' t : σ} {file user : Int}

theorem Ledger.Alike.trans (h : Alike file s s') (h' : Alike file s' t) : Alike file s t where
  record_eq := h'.record_eq.trans h.record_eq
  rows_eq := h'.rows_eq.trans h.rows_eq
  labels_eq := h'.labels_eq.trans h.labels_eq

namespace Service

/-- The files of all other users are as they were. -/
def Spares (user : Int) (s t : σ) : Prop :=
  ∀ file r, record? s file = some r → r.owner ≠ user → Alike file s t

theorem Spares.refl (user : Int) (s : σ) : Spares user s s := fun file _ _ _ => .refl file s

theorem Spares.trans (h : Spares user s s') (h' : Spares user s' t) : Spares user s t := by
  intro file r hr foreign
  have alike := h file r hr foreign
  exact alike.trans (h' file r (alike.record_eq.trans hr) foreign)

theorem spares_of_confined (own : Belongs user file s) (confined : Confined file s t) :
    Spares user s t := by
  intro g r hr foreign
  refine confined.alike g ?_
  rintro rfl
  exact foreign (own r hr)

/-! ## Files that are not there for a user -/

section Hidden

variable [Store σ]

omit [Labelled σ]

/-- A user who has no such file, or has deleted it, is told that it is not found. -/
theorem inform_hidden [DiscreetStore σ] (sound : Sound s) (hidden : Hidden user file s) :
    inform user file s = .error .notFound := by
  rw [inform, DiscreetStore.info_hidden sound hidden]
  rfl

theorem download_hidden [DiscreetStore σ] (sound : Sound s) (hidden : Hidden user file s)
    (tr : Transfer) (schedule : Schedule Download.Move) :
    download tr schedule user file s = .error (.failed .notFound) := by
  rw [download, Download.begin, DiscreetStore.info_hidden sound hidden]
  rfl

theorem delete_hidden [LawfulStore σ] (sound : Sound s) (hidden : Hidden user file s) :
    Store.delete s user file = .error .notFound := by
  have outcome := LawfulStore.delete user file sound
  generalize Store.delete s user file = a at outcome
  cases outcome with
  | missing gone => rfl
  | done live owned changes record_eq rows_eq => exact absurd owned (hidden _ live)

/-- A file that is told of to a user belongs to that user. -/
theorem belongs_of_info [LawfulStore σ] [DiscreetStore σ] (sound : Sound s) {r : Record}
    (h : Store.info s file user = .ok r) : Belongs user r.id s := by
  obtain ⟨live, owned⟩ := DiscreetStore.live_of_info sound h
  have there := (live?_eq_some_iff.1 live).1
  intro e he
  rw [LawfulStore.id_eq sound there, there] at he
  cases he
  exact owned

end Hidden

/-! ## Transfers -/

section Transfers

variable [Store σ] [Narrow σ]

/-- A store after a user has been at work on a file, and the same store narrowed to that user. -/
structure Apart (user : Int) (s₀ : σ) (file : Option Int) (s t : σ) : Prop where
  sound : Sound s
  narrow : t = only user s
  own : ∀ g, file = some g → Belongs user g s
  spares : Spares user s₀ s

variable [LawfulStore σ] [ConfinedStore σ] [NarrowStore σ] {s₀ : σ} {now : Moment}

/-- An upload does the same in a store narrowed to its user, and spares the files of others. -/
theorem twins_apart (user : Int) (now : Moment) (s₀ : σ) :
    Upload.Twins user now (fun _ => True) (Apart user s₀) where
  free apart := { apart with own := nofun }
  create {s t d} apart _ := by
    obtain ⟨sound, rfl, -, spares⟩ := apart
    have outcome := LawfulStore.create now user d sound
    rw [NarrowStore.create sound]
    cases hs : Store.create s now user d with
    | error f => exact .error f
    | ok made =>
      obtain ⟨file, u⟩ := made
      have extended := ConfinedStore.create sound hs
      rw [hs] at outcome
      cases outcome with
      | @done r u isNew tells sound' last_eq record_eq rows_eq =>
        refine .ok ⟨rfl, sound', rfl, ?_, spares.trans ?_⟩
        · rintro g hg e he
          cases hg
          rw [record_eq, if_pos rfl] at he
          cases he
          exact isNew.owner_eq
        · intro g e he _
          have := ConfinedStore.le_last sound (by rw [he]; rfl : (record? s g).isSome)
          exact extended.alike g (by omega)
  save {s t file index c} apart known := by
    obtain ⟨sound, rfl, own, spares⟩ := apart
    have own := own file rfl
    have outcome := LawfulStore.save file index sound known
    rw [NarrowStore.save sound own]
    cases hs : Store.save s file index c with
    | error f => exact .error f
    | ok u =>
      have confined := ConfinedStore.save sound hs
      rw [hs] at outcome
      cases outcome with
      | done live fresh changes record_eq rows_eq =>
        refine .ok ⟨confined.sound, rfl, ?_, spares.trans (spares_of_confined own confined)⟩
        rintro g hg r hr
        cases hg
        exact own r (record_eq ▸ hr)
  complete {s t file bytes} apart small := by
    obtain ⟨sound, rfl, own, spares⟩ := apart
    have own := own file rfl
    rw [NarrowStore.complete sound own]
    cases hs : Store.complete s file bytes with
    | error f => exact .error f
    | ok u =>
      have confined := ConfinedStore.complete sound hs
      exact .ok ⟨confined.sound, rfl, nofun, spares.trans (spares_of_confined own confined)⟩
  purge {s t file} apart := by
    obtain ⟨sound, rfl, own, spares⟩ := apart
    have own := own file rfl
    rw [NarrowStore.purge sound own]
    cases hs : Store.purge s file with
    | error f => exact .error f
    | ok u =>
      obtain ⟨confined, -⟩ := ConfinedStore.purge sound hs
      exact .ok ⟨confined.sound, rfl, nofun, spares.trans (spares_of_confined own confined)⟩

omit [ConfinedStore σ] in
/-- A download sends the same from a store narrowed to its user. -/
theorem download_only [DiscreetStore σ] (sound : Sound s) (tr : Transfer)
    (schedule : Schedule Download.Move) :
    download tr schedule user file (only user s) = download tr schedule user file s := by
  refine download_eq_of_info ?_ (fun r range hr _ => ?_) tr schedule
  · rw [NarrowStore.info sound]
    cases Store.info s file user with
    | error f => exact .error f
    | ok r => exact .ok rfl
  · rw [NarrowStore.info sound] at hr
    exact NarrowStore.chunks sound (belongs_of_info sound hr)

theorem upload_only (sound : Sound s) (tr : Transfer) (schedule : Schedule Upload.Move)
    (now : Moment) (items : List Message.Item) :
    (upload tr schedule user now items (only user s)).1 =
        (upload tr schedule user now items s).1 ∧
      Apart user s none (upload tr schedule user now items s).2
        (upload tr schedule user now items (only user s)).2 := by
  have start : Apart user s none s (only user s) := ⟨sound, rfl, nofun, .refl user s⟩
  have fits : ∀ o, Upload.offer items.head? = .ok o → True := fun _ _ => trivial
  obtain ⟨same, apart⟩ := (twins_apart user now s).upload sound start tr schedule fits
  exact ⟨same.symm, apart⟩

omit [Narrow σ] [NarrowStore σ] in
theorem spares_of_delete (sound : Sound s) (h : Store.delete s user file = .ok t) :
    Spares user s t := by
  have outcome := LawfulStore.delete user file sound
  rw [h] at outcome
  cases outcome with
  | done live owned changes record_eq rows_eq =>
    refine spares_of_confined (fun r hr => ?_) (ConfinedStore.delete sound h)
    cases (live?_eq_some_iff.1 live).1.symm.trans hr
    exact owned

/-- Every request of a user has the same answer in the store without the files of others, and leaves
the same of the user's files. It spares the files of others. A file of another user, a deleted file
and a number without a file look the same to whoever asks for the file, downloads it or deletes it.
-/
theorem isolation [DiscreetStore σ] (sound : Sound s) (tr : Transfer) (schedules : Schedules)
    (now : Moment) (user : Int) (request : Request) :
    perform tr schedules now user request (only user s) =
        ((perform tr schedules now user request s).1,
          only user (perform tr schedules now user request s).2) ∧
      (∀ file r, record? s file = some r → r.owner ≠ user →
        Alike file s (perform tr schedules now user request s).2) ∧
      ∀ r : Message.FileRequest, (∀ e, live? s r.file.toInt = some e → e.owner ≠ user) →
        ∀ q ∈ [Request.info r, .download r, .delete r],
          perform tr schedules now user q s = (.error (.failed Failure.notFound.status), s) := by
  refine ⟨?_, ?_, fun r hidden q hq => ?_⟩
  · cases request with
    | upload frames =>
      obtain ⟨same, apart⟩ := upload_only sound tr schedules.upload now frames
      exact Prod.ext (by simp only [perform, same]) apart.narrow
    | download r => simp only [perform, download_only sound]
    | delete r =>
      simp only [perform, NarrowStore.delete sound]
      cases Store.delete s user r.file.toInt <;> rfl
    | list r => simp only [perform, enumerate, NarrowStore.list sound]
    | info r => simp only [perform, inform, NarrowStore.info sound]
  · show Spares user s _
    cases request with
    | upload frames => exact (upload_only sound tr schedules.upload now frames).2.spares
    | delete r =>
      simp only [perform]
      split
      · exact spares_of_delete sound ‹_›
      · exact .refl user s
    | download | list | info => exact .refl user s
  · simp only [List.mem_cons, List.not_mem_nil, or_false] at hq
    rcases hq with rfl | rfl | rfl
    · simp only [perform, inform_hidden sound hidden]
      rfl
    · simp only [perform, download_hidden sound hidden]
      rfl
    · simp only [perform, delete_hidden sound hidden]
      rfl

end Transfers

/-- Two users have a file each, in either store. Neither learns of the other's file, nor deletes
it. -/
theorem isolation_of_two_users :
    let key : Key := ⟨List.replicate 32 0, List.length_replicate⟩
    let tr : Transfer := ⟨1, key, Nat.one_pos⟩
    let schedules : Schedules := ⟨Upload.frontFirst fun _ => none, Download.workersFirst⟩
    let now : Moment := .universal 0 0
    let record (id owner : Int) : Record :=
      ⟨id, owner, "a", "text/plain", 0, 1, 0, "", true, false, .universal 0 0, []⟩
    let row (id owner : Int) : FileRow :=
      ⟨id, owner, "a", "text/plain", 0, "", 1, 0, true, false, 0⟩
    let s : Resident := { files := [⟨record 1 5, []⟩, ⟨record 2 6, []⟩], lastFile := 2 }
    let t : Tables := { files := [row 1 5, row 2 6], lastFile := 2 }
    (perform tr schedules now 5 (.list {}) { s with files := [⟨record 1 5, []⟩] }).1 =
        (perform tr schedules now 5 (.list {}) s).1 ∧
      (perform tr schedules now 5 (.list {}) { t with files := [row 1 5] }).1 =
        (perform tr schedules now 5 (.list {}) t).1 ∧
      Alike 2 s (perform tr schedules now 5 (.delete ⟨1⟩) s).2 ∧
      Alike 2 t (perform tr schedules now 5 (.delete ⟨1⟩) t).2 ∧
      perform tr schedules now 5 (.delete ⟨2⟩) s = (.error (.failed Failure.notFound.status), s) ∧
      perform tr schedules now 5 (.delete ⟨2⟩) t =
        (.error (.failed Failure.notFound.status), t) := by
  intro key tr schedules now record row s t
  have soundS : Sound s := ⟨by decide, by decide, by decide⟩
  have soundT : Sound t := ⟨by decide, by decide, by decide, by decide, by decide⟩
  obtain ⟨listS, -, -⟩ := isolation soundS tr schedules now 5 (.list {})
  obtain ⟨listT, -, -⟩ := isolation soundT tr schedules now 5 (.list {})
  obtain ⟨-, spareS, hideS⟩ := isolation soundS tr schedules now 5 (.delete ⟨1⟩)
  obtain ⟨-, spareT, hideT⟩ := isolation soundT tr schedules now 5 (.delete ⟨1⟩)
  have narrowS : only 5 s = { s with files := [⟨record 1 5, []⟩] } := rfl
  have narrowT : only 5 t = { t with files := [row 1 5] } := rfl
  rw [narrowS] at listS
  rw [narrowT] at listT
  refine ⟨(Prod.ext_iff.1 listS).1, (Prod.ext_iff.1 listT).1, ?_, ?_, ?_, ?_⟩
  · exact spareS 2 (record 2 6) rfl (by decide)
  · exact spareT 2 (record 2 6) (by decide) (by decide)
  · refine hideS ⟨2⟩ (fun e he => ?_) (.delete ⟨2⟩) (by simp)
    have there : live? s 2 = some (record 2 6) := rfl
    cases there.symm.trans he
    decide
  · refine hideT ⟨2⟩ (fun e he => ?_) (.delete ⟨2⟩) (by simp)
    have there : live? t 2 = some (record 2 6) := by decide
    cases there.symm.trans he
    decide

end Service

end Strongbox
