import Strongbox.Proofs.Store.Stamped

/-!
# The two stores behind the service

Whoever calls the service cannot tell which of the two stores is behind it, except by how precisely
it tells when files were made.

## Main definitions

* `Visit`: a call of a known user, with all that decides its course.
* `Service.answers`: the answers to calls that come one after another.
* `Reply.timeless`: an answer, no matter when files were made.

## Main statements

* `Matches.perform`: every request has the same answer in stores that match.
* `Service.answers_eq`: so have the calls of a row, in two stores that were empty before.
-/

namespace Strongbox

open Ledger Message

/-- All that is told of a file, no matter when it was made. -/
def Message.FileDetails.timeless (m : FileDetails) : FileDetails := { m with createdAt := "" }

def Reply.timeless : Reply → Reply
  | .listing m => .listing { m with files := m.files.map ListItem.timeless }
  | .details m => .details m.timeless
  | r => r

/-- No text of the request has a null character, and a listing is asked for with a blank filter. -/
def Request.IsPlain : Request → Prop
  | .upload frames => ∀ m, .ok (.metadata m) ∈ frames → (Upload.draftOf m).IsPlain
  | .list r => Text.trim r.filter.toList = []
  | _ => True

/-- A call of a known user, with all that decides its course. -/
structure Visit where
  user : Int
  request : Request
  now : Moment
  schedules : Service.Schedules

def Service.answers {σ : Type} [Store σ] (tr : Transfer) :
    List Visit → σ → List (Except (Halt Status) Reply)
  | [], _ => []
  | v :: rest, s =>
    let (answer, s) := perform tr v.schedules v.now v.user v.request s
    answer :: answers tr rest s

/-- Results that are the same, no matter when files were made, are told alike. -/
theorem told_congr {α : Type} {reply : α → Reply} {a b : Except Failure α}
    (h : a.map (fun m => (reply m).timeless) = b.map fun m => (reply m).timeless) :
    (Service.told (a.map reply)).map Reply.timeless =
      (Service.told (b.map reply)).map Reply.timeless := by
  have told_map (c : Except Failure α) : (Service.told (c.map reply)).map Reply.timeless =
      Service.told (c.map fun m => (reply m).timeless) := by
    cases c <;> rfl
  rw [told_map, told_map, h]

namespace Matches

variable {σ τ : Type} [Store σ] [Store τ] [Ledger σ] [Ledger τ] [Stamped σ] [Stamped τ] {s : σ}
  {t : τ} {now : Moment}

/-- What is told of a file is the same in stores that match, except when it was made. -/
theorem inform [LawfulStore σ] [LawfulStore τ] [DiscreetStore σ] [DiscreetStore τ]
    (both : Matches now s t) (user file : Int) :
    (Service.inform user file s).map (fun m => Reply.timeless (.details m)) =
      (Service.inform user file t).map fun m => Reply.timeless (.details m) := by
  have told := both.info file user
  unfold Service.inform
  generalize Store.info s file user = a at told
  generalize Store.info t file user = b at told
  cases told with
  | error f => rfl
  | @ok r r' concur =>
    have available_eq : r'.isAvailable = r.isAvailable := by rw [concur]; rfl
    have details_eq : r.details.timeless = r'.details.timeless := by rw [concur]; rfl
    show Except.map _ (if r.isAvailable then .ok r.details else .error Failure.notFound) =
      Except.map _ (if r'.isAvailable then .ok r'.details else .error Failure.notFound)
    rw [available_eq]
    split
    · exact congrArg (fun m => Except.ok (Reply.details m)) details_eq
    · rfl

/-- A page of a listing with a blank filter shows the same in stores that match. -/
theorem enumerate [StampedStore σ] [StampedStore τ] (both : Matches now s t) (user : Int)
    {r : ListRequest} (blank : Text.trim r.filter.toList = []) :
    (Service.enumerate user r s).map (fun m => Reply.timeless (.listing m)) =
      (Service.enumerate user r t).map fun m => Reply.timeless (.listing m) := by
  have all : (Query.make r.page.toInt r.perPage.toInt r.filter).filter = none := by
    simp [Query.make, blank]
  obtain ⟨xs, ys, hs, ht, shown⟩ := both.list user all
  have length_eq : xs.length = ys.length := by simpa using congrArg List.length shown
  have page_eq (q : Query) : ((q.slice xs).map Record.listItem).map ListItem.timeless =
      ((q.slice ys).map Record.listItem).map ListItem.timeless := by
    have sliced := congrArg q.slice shown
    rw [Query.slice_map, Query.slice_map] at sliced
    rw [List.map_map, List.map_map]
    exact sliced
  have reply_eq (q : Query) : Reply.timeless (.listing (q.reply (q.slice xs) xs.length)) =
      Reply.timeless (.listing (q.reply (q.slice ys) ys.length)) := by
    simp only [Reply.timeless, Query.reply, page_eq, length_eq]
  unfold Service.enumerate
  simp only [hs, ht]
  exact congrArg Except.ok (reply_eq _)

section Changes

variable [Labelled σ] [Labelled τ] [LawfulStore σ] [LawfulStore τ] [ConfinedStore σ]
  [ConfinedStore τ] [StampedStore σ] [StampedStore τ]

/-- Stores that match stay so while an upload is at work. -/
theorem twins (owner : Int) (now : Moment) :
    Upload.Twins owner now (fun d => Keeps σ d ∧ Keeps τ d ∧ d.originalSize ≤ Word.maxInt64)
      (fun _ => Matches (σ := σ) (τ := τ) now) where
  free both := both
  create both fits := both.create fits.1 fits.2.1 fits.2.2 owner
  save both known := both.save _ _ known
  complete both small := both.complete _ small
  purge both := both.purge _

theorem upload (both : Matches now s t) (tr : Transfer) (schedule : Schedule Upload.Move)
    (owner : Int) {items : List Item}
    (plain : ∀ m, .ok (.metadata m) ∈ items → Keeps σ (Upload.draftOf m) ∧
      Keeps τ (Upload.draftOf m)) :
    (upload tr schedule owner now items s).1 = (upload tr schedule owner now items t).1 ∧
      Matches now (upload tr schedule owner now items s).2
        (upload tr schedule owner now items t).2 := by
  refine (twins owner now).upload both.left.sound both tr schedule fun o ho => ?_
  have numbers := Upload.isSound_of_offer ho
  obtain ⟨m, hm, -, draft_eq⟩ := Upload.offer_eq_ok_iff.1 ho
  obtain ⟨left, right⟩ := plain m (List.mem_of_head? hm)
  exact ⟨draft_eq ▸ left, draft_eq ▸ right, numbers.originalSize_eq ▸ numbers.size_le⟩

/-- A request of a user has the same answer in stores that match, and they match after it. -/
theorem perform [DiscreetStore σ] [DiscreetStore τ] (both : Matches now s t) (tr : Transfer)
    (schedules : Service.Schedules) (user : Int) {request : Request} (plain : request.IsPlain)
    (keeps : ∀ d : Draft, d.IsPlain → Keeps σ d ∧ Keeps τ d) :
    (Service.perform tr schedules now user request s).1.map Reply.timeless =
        (Service.perform tr schedules now user request t).1.map Reply.timeless ∧
      Matches now (Service.perform tr schedules now user request s).2
        (Service.perform tr schedules now user request t).2 := by
  cases request with
  | upload frames =>
    obtain ⟨same, after⟩ := both.upload tr schedules.upload user fun m hm => keeps _ (plain m hm)
    exact ⟨by simp only [Service.perform, same], after⟩
  | download r =>
    exact ⟨by simp only [Service.perform, both.download_eq], both⟩
  | delete r =>
    have outcome := both.delete user r.file.toInt
    simp only [Service.perform]
    generalize Store.delete s user r.file.toInt = a at outcome
    generalize Store.delete t user r.file.toInt = b at outcome
    cases outcome with
    | error f => exact ⟨rfl, both⟩
    | ok after => exact ⟨rfl, after⟩
  | list r =>
    refine ⟨?_, both⟩
    exact told_congr (both.enumerate user plain)
  | info r =>
    refine ⟨?_, both⟩
    exact told_congr (both.inform user r.file.toInt)

end Changes

end Matches

namespace Service

theorem matches_empty (now : Moment) : Matches now ({} : Resident) ({} : Tables) where
  left := ⟨Resident.sound_empty, nofun, fun _ h => nomatch h⟩
  right := ⟨⟨.nil, nofun, nofun, nofun, .nil⟩, nofun, fun _ h => nomatch h⟩
  last_eq := rfl
  label_eq := rfl
  records _ := .none
  rows _ := .nil

/-- Calls that come one after another have the same answers in stores that match. -/
theorem answers_of_matches (tr : Transfer) (visits : List Visit) {s : Resident} {t : Tables}
    {now : Moment} (both : Matches now s t) (plain : ∀ v ∈ visits, v.request.IsPlain)
    (clock : (visits.map Visit.now).Pairwise Moment.NoLater)
    (later : ∀ v ∈ visits, now.NoLater v.now) :
    (answers tr visits s).map (·.map Reply.timeless) =
      (answers tr visits t).map (·.map Reply.timeless) := by
  induction visits generalizing s t now with
  | nil => rfl
  | cons v rest ih =>
    have keeps : ∀ d : Draft, d.IsPlain → Keeps Resident d ∧ Keeps Tables d :=
      fun d plain => ⟨trivial, plain⟩
    obtain ⟨same, after⟩ := (both.wait (later v List.mem_cons_self)).perform tr v.schedules v.user
      (plain v List.mem_cons_self) keeps
    rw [List.map_cons, List.pairwise_cons] at clock
    simp only [answers, List.map_cons, same]
    rw [ih after (fun w hw => plain w (.tail _ hw)) clock.2 fun w hw =>
      clock.1 w.now (List.mem_map_of_mem hw)]

/-- The two stores are interchangeable. Whatever is called for, one call after another while the
clock does not go back, the answers are the same if both stores were empty at first: the same
numbers of files and labels, pages, sizes, statuses and contents. Only the times at which files were
made are told in different precision. -/
theorem answers_eq (tr : Transfer) (visits : List Visit)
    (plain : ∀ v ∈ visits, v.request.IsPlain)
    (clock : (visits.map Visit.now).Pairwise Moment.NoLater) :
    (answers tr visits ({} : Resident)).map (·.map Reply.timeless) =
      (answers tr visits ({} : Tables)).map (·.map Reply.timeless) := by
  cases visits with
  | nil => rfl
  | cons v rest =>
    refine answers_of_matches tr (v :: rest) (matches_empty v.now) plain clock fun w hw => ?_
    rcases List.mem_cons.1 hw with rfl | hw
    · exact .refl w.now
    · exact (List.pairwise_cons.1 clock).1 w.now (List.mem_map_of_mem hw)

/-- A file without chunks but with a label is uploaded, listed, asked about, deleted and asked about
again. -/
theorem answers_eq_of_five_calls :
    let key : Key := ⟨List.replicate 32 0, List.length_replicate⟩
    let tr : Transfer := ⟨1, key, Nat.one_pos⟩
    let schedules : Schedules := ⟨Upload.frontFirst fun _ => none, Download.workersFirst⟩
    let visit (request : Request) (seconds : Int) : Visit :=
      ⟨5, request, .universal seconds 7, schedules⟩
    let frames : List Item := [.ok (.metadata { chunkSize := 1, labels := [⟨0, "a", "b"⟩] })]
    let visits : List Visit := [visit (.upload frames) 0, visit (.list {}) 1, visit (.info ⟨1⟩) 1,
      visit (.delete ⟨1⟩) 2, visit (.info ⟨1⟩) 3]
    (answers tr visits ({} : Resident)).map (·.map Reply.timeless) =
        (answers tr visits ({} : Tables)).map (·.map Reply.timeless) ∧
      (answers tr visits ({} : Tables)).map (·.toBool) = [true, true, true, true, false] := by
  intro key tr schedules visit frames visits
  refine ⟨answers_eq tr visits ?_ ?_, by decide +kernel⟩
  · intro v hv
    simp only [visits, List.mem_cons, List.not_mem_nil, or_false] at hv
    rcases hv with rfl | rfl | rfl | rfl | rfl
    · intro m hm
      cases List.mem_singleton.1 hm
      show ∀ s ∈ ["", "", "", "a", "b"], '\x00' ∉ s.toList
      decide
    · exact Text.trim_nil
    · trivial
    · trivial
    · trivial
  · simp [visits, visit, Moment.NoLater, Moment.universal]

end Service

end Strongbox
