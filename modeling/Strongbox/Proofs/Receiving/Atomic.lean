import Strongbox.Proofs.Name
import Strongbox.Proofs.Receiving.Verdict

/-!
# Files replaced at one stroke

Here any work on files may fail, at any time.

## Main definitions

* `Receiving.Suits`: what is relied on of what is drawn for the name of a temporary file.
* `Receiving.Within`: a download works within one folder.

## Main statements

* `Receiving.atomic_of_course`: a file is replaced by the whole of what was sent, or not at all.
-/

namespace Strongbox.Receiving

open Message

/-- What is relied on of what is drawn for the name of a temporary file: it is a part of one name,
and the name is not the one that the file is to have. -/
structure Suits (drawn : String) (items : List Item) : Prop where
  single : '/' ∉ drawn.toList
  apart : ∀ a, announcement items.head? = .ok a → temporaryName drawn ≠ a.name

/-- A name with more than two characters that is part of no path leads to an entry. -/
theorem isStep_temporaryName {drawn : String} (single : '/' ∉ drawn.toList) :
    IsStep (temporaryName drawn) := by
  have parts : (temporaryName drawn).toList =
      ".vault-".toList ++ drawn.toList ++ ".part".toList := by
    rw [temporaryName, String.toList_append, String.toList_append]
  have longer : ∀ name : String, name.toList.length ≤ 2 → temporaryName drawn ≠ name := by
    rintro _ short rfl
    rw [parts, List.append_assoc, List.length_append] at short
    have : ".vault-".toList.length = 7 := by decide
    omega
  refine ⟨longer _ (by decide), longer _ (by decide), longer _ (by decide), fun h => ?_⟩
  rw [parts, List.mem_append, List.mem_append] at h
  rcases h with (h | h) | h
  · exact absurd h (by decide)
  · exact single h
  · exact absurd h (by decide)

/-- A download works within the folder that `dest` leads to, at the path its file is to have, and at
one where nothing stands. -/
structure Within (tree : Tree) (dest : String) (r : Receiver) : Prop where
  found : tree.folder dest = .ok r.folder
  name : IsStep r.name
  temporary : IsStep r.temporary
  apart : r.temporaryPath ≠ r.target
  vacant : tree.get? r.temporaryPath = none

variable {j : Job} {fs : List Failure} {r : Receiver}

theorem Job.Hosts.within {dest : String} (hosts : j.Hosts r)
    (found : j.ground.folder dest = .ok j.folder) (plain : IsStep j.temporary)
    (apart : j.temporary ≠ j.announcement.name) : Within j.ground dest r where
  found := hosts.folder_eq ▸ found
  name := by
    rw [hosts.name_eq]
    exact Name.isStep_of_safe (announcement_eq_ok_iff.1 j.announced).2.2
  temporary := hosts.temporary_eq ▸ plain
  apart := by
    rw [hosts.target_eq, hosts.temporaryPath_eq]
    exact (target_ne apart).symm
  vacant := by
    rw [hosts.temporaryPath_eq]
    exact j.vacant

theorem Job.Standing.get?_elsewhere (standing : j.Standing fs r) {p : Path} (target : p ≠ j.target)
    (scratch : p ≠ j.scratch) : r.tree.get? p = j.ground.get? p := by
  cases standing with
  | reading _ work | draining _ work | closing _ work => exact work.others p scratch
  | clearing _ _ _ others => exact others p scratch
  | failed _ _ same => exact same p
  | done _ _ _ _ _ others => exact others p target

/-- Until a receiver has an answer, its target is left alone. -/
theorem Job.Standing.get?_target (standing : j.Standing fs r)
    (apart : j.temporary ≠ j.announcement.name)
    (unfinished : ∀ v, r.front ≠ .finished v) : r.tree.get? j.target = j.ground.get? j.target := by
  cases standing with
  | reading _ work | draining _ work | closing _ work => exact work.others _ (j.target_ne apart)
  | clearing _ _ _ others => exact others _ (j.target_ne apart)
  | failed hf | done hf => exact absurd hf (unfinished _)

/-- A download replaces its file at one stroke, whatever work on files fails on the way. Until there
is an answer, the target holds what it held before. If the answer is good, no work has failed, the
target holds the whole of what was sent, and the temporary file is gone. If it is bad, all is as it
was before. Nothing is ever written elsewhere. A receiver without an answer can go on, and not for
ever: each of its moves lowers its weight. A download that does not begin, or breaks down with more
writers than fit, leaves all as it was. -/
theorem atomic_of_course {writers : Nat} {drawn dest : String} {items : List Item} {tree : Tree}
    (suits : Suits drawn items) :
    match begin writers drawn dest items tree with
    | .error e => ∀ schedule, receive schedule writers drawn dest items tree = (.error e, tree)
    | .ok (a, r₀) => Within tree dest r₀ ∧ r₀.name = a.name ∧
      r₀.temporary = temporaryName drawn ∧ ∀ fs r, Course r₀ fs r →
      (∀ p, p ≠ r₀.target → p ≠ r₀.temporaryPath → r.tree.get? p = tree.get? p) ∧
      match r.front with
      | .finished (.ok _) => fs = [] ∧ r.tree.get? r₀.temporaryPath = none ∧
          ∃ frames contents, Upload.Exact items a.metadata a.plan frames ∧
            MakesUp a.plan frames contents ∧ r.tree.get? r₀.target = some (.file contents)
      | .finished (.error _) => ∀ p, r.tree.get? p = tree.get? p
      | _ => r.tree.get? r₀.target = tree.get? r₀.target ∧
          (∃ m q, m.works = true ∧ step m r = some q) ∧
          ∀ m q, step m r = some q → q.weight < r.weight := by
  cases hbegin : begin writers drawn dest items tree with
  | error e =>
    intro schedule
    rw [receive, hbegin]
  | ok begun =>
    obtain ⟨a, r₀⟩ := begun
    obtain ⟨j, rfl, rfl, rfl, drawn_eq, found, hosts, start⟩ := exists_job hbegin
    have apart : j.temporary ≠ j.announcement.name := drawn_eq ▸ suits.apart _ j.announced
    have plain : IsStep j.temporary := drawn_eq ▸ isStep_temporaryName suits.single
    refine ⟨hosts.within found plain apart, hosts.name_eq, hosts.temporary_eq.trans drawn_eq,
      fun fs r course => ?_⟩
    rw [hosts.target_eq, hosts.temporaryPath_eq]
    have standing := course.standing start
    refine ⟨fun p => standing.get?_elsewhere, ?_⟩
    cases hf : r.front with
    | finished verdict =>
      cases verdict with
      | ok n =>
        cases standing with
        | done hf' gone clean passed there others =>
          obtain ⟨frames, exact, makes⟩ := passed.exact
          have gone := (others _ (j.target_ne apart).symm).trans j.vacant
          exact ⟨clean, gone, frames, _, exact, makes, there⟩
        | closing hf' => simp [hf] at hf'
        | reading hf' | draining hf' | clearing hf' | failed hf' => simp [hf, Front.reads] at hf'
      | error f =>
        cases standing with
        | failed hf' gone same blame => exact same
        | closing hf' => simp [hf] at hf'
        | reading hf' | draining hf' | clearing hf' | done hf' => simp [hf, Front.reads] at hf'
    | reading | enqueuing | draining | syncing | naming | clearing =>
      have unfinished : ∀ v, r.front ≠ .finished v := by simp [hf]
      exact ⟨standing.get?_target apart unfinished, standing.moves unfinished,
        fun m q => weight_step⟩

/-- A write of two bytes puts one in its place and fails: the file of that name is left alone. -/
theorem atomic_of_failed_write :
    let m : Metadata :=
      { filename := "notes.txt", originalSize := 2, chunkSize := 2, totalChunks := 1 }
    let items : List Item := [.ok (.metadata m), .ok (.chunk { data := [7, 8], isLast := true })]
    let tree : Tree := ⟨[(["notes.txt"], .file [1, 2, 3, 4])]⟩
    Suits "0" items ∧ ∃ a r₀ fs r, begin 1 "0" "" items tree = .ok (a, r₀) ∧ Course r₀ fs r ∧
      r.front = .finished (.error (.io "No space left on device (os error 28)")) ∧
      ∀ p, r.tree.get? p = tree.get? p := by
  let full : Schedule Move := fun _ writers => .front none :: (List.range writers).map fun n =>
    .writer n (some (1, .io "No space left on device (os error 28)"))
  obtain ⟨r₀, begins, answer⟩ : ∃ r₀ : Receiver, r₀ =
      { plan := ⟨2, 2, by decide, by decide⟩, folder := [], name := "notes.txt"
        temporary := ".vault-0.part"
        tree := ⟨[([".vault-0.part"], .draft []), (["notes.txt"], .file [1, 2, 3, 4])]⟩
        inbound := [.ok (.chunk { data := [7, 8], isLast := true })]
        workers := [.waiting] } ∧ (machine.run full r₀).front =
          .finished (.error (.io "No space left on device (os error 28)")) :=
    ⟨_, rfl, rfl⟩
  intro m items tree
  let a : Announcement := ⟨m, ⟨2, 2, by decide, by decide⟩, "notes.txt"⟩
  have safe : Name.safe "notes.txt" = .ok "notes.txt" := rfl
  have announced : announcement items.head? = .ok a :=
    announcement_eq_ok_iff.2 ⟨rfl, ⟨by decide, by decide, by decide⟩, safe⟩
  have free : tree.get? ([] ++ [temporaryName "0"]) = none := by decide
  have begun : begin 1 "0" "" items tree = .ok (a, r₀) :=
    begin_eq_ok_iff.2 ⟨announced, [], rfl, start_eq_ok_iff.2 ⟨by decide, rfl, free, begins⟩⟩
  have suits : Suits "0" items := by
    refine ⟨by decide, fun b hb => ?_⟩
    cases announced.symm.trans hb
    decide
  obtain ⟨fs, course⟩ : ∃ fs, Course r₀ fs (machine.run full r₀) := Course.run full
  have atomic := @atomic_of_course 1 "0" "" items tree suits
  rw [begun] at atomic
  have undone := (atomic.2.2.2 fs _ course).2
  rw [answer] at undone
  exact ⟨suits, a, r₀, fs, _, begun, course, answer, undone⟩

end Strongbox.Receiving
