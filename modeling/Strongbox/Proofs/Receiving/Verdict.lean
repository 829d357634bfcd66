import Strongbox.Proofs.Receiving.Standing

/-!
# What a receiver answers

Which streams become a file, and what is in it.

## Main definitions

* `Receiving.Whole`: the streams that are to become a file.
* `Receiving.MakesUp`: the contents that chunk frames make up.

## Main statements

* `Receiving.received_of_course`: while no work on files fails, these streams become a file and no
  others, and the file has each chunk at its place, in whatever order they came and were written.
-/

namespace Strongbox.Receiving

open Message

/-- The stream is a metadata frame that announces a plan and a usable name, and then one chunk frame
for each index of the plan, in any order, as long as the plan says. -/
def Whole (items : List Item) : Prop :=
  ∃ m plan frames name, Upload.Exact items m plan frames ∧ Name.safe m.filename = .ok name

/-- The contents that chunk frames make up: as long as the plan says, each chunk at its place. -/
structure MakesUp (plan : Plan) (frames : List Message.Chunk) (contents : Bytes) : Prop where
  length_eq : contents.length = plan.size
  placed : ∀ c ∈ frames, plan.slice contents c.index.toInt.toNat = c.data

variable {items : List Item} {m : Metadata} {plan : Plan} {frames : List Message.Chunk}
  {contents other : Bytes} {a : Announcement} {name : String} {j : Job} {ps : List Piece}

theorem announcement_of_exact (exact : Upload.Exact items m plan frames)
    (safe : Name.safe m.filename = .ok name) :
    announcement items.head? = .ok ⟨m, plan, name⟩ := by
  rw [exact.stream]
  exact announcement_eq_ok_iff.2 ⟨rfl, exact.announced, safe⟩

/-! ## Contents -/

/-- Chunk frames of an exact stream make up one content only, in whatever order. -/
theorem MakesUp.unique {frames' : List Message.Chunk} (exact : Upload.Exact items m plan frames)
    (makes : MakesUp plan frames contents) (perm : frames'.Perm frames)
    (makes' : MakesUp plan frames' other) : other = contents := by
  have fits : ∀ c ∈ frames, plan.Fits (Upload.pieceOf c) := by
    intro c hc
    obtain ⟨t, ht⟩ := exact.sends.passes c hc
    have same := Upload.piece_eq_pieceOf ht
    exact same ▸ (Plan.piece_eq_ok_iff.1 ht).2.2
  have cuts : ∀ {payload : Bytes}, (∀ c ∈ frames, plan.slice payload c.index.toInt.toNat = c.data) →
      plan.Cuts payload (frames.map Upload.pieceOf) := by
    intro payload placed t ht
    obtain ⟨c, hc, rfl⟩ := List.mem_map.1 ht
    exact ⟨(fits c hc).lt_total, (placed c hc).symm⟩
  have indices : ((frames.map Upload.pieceOf).map (·.index)).Perm (List.range plan.total) := by
    rw [List.map_map]
    exact exact.perm
  have here := Plan.fill_eq makes.length_eq.symm (cuts makes.placed) indices
  have there := Plan.fill_eq makes'.length_eq.symm
    (cuts fun c hc => makes'.placed c (perm.mem_iff.2 hc)) indices
  exact there.symm.trans here

/-- The pieces of a stream come with the chunk frames that make up their payload. -/
theorem Job.Passes.exact (passes : j.Passes ps) :
    ∃ frames, Upload.Exact j.items j.announcement.metadata j.plan frames ∧
      MakesUp j.plan frames (j.plan.assemble ps) := by
  obtain ⟨m, frames, exact, rfl⟩ := Upload.Passed.exact passes
  have head_eq := (announcement_eq_ok_iff.1 j.announced).1
  rw [exact.stream] at head_eq
  cases head_eq
  refine ⟨frames, exact, Plan.length_assemble _ _, fun c hc => ?_⟩
  have cuts := Plan.cuts_assemble (Upload.fits_of_read passes.read)
    (passes.all.nodup_iff.2 List.nodup_range)
  exact (cuts _ (List.mem_map_of_mem hc)).2.symm

theorem Job.not_whole (blame : ∀ ps, ¬j.Passes ps) : ¬Whole j.items := by
  rintro ⟨m, plan, frames, name, exact, safe⟩
  have announced := j.announced
  rw [announcement_of_exact exact safe] at announced
  have passed := exact.passed
  cases j
  cases announced
  exact blame _ passed

/-! ## The answer -/

/-- While no work on files fails and the writers fit, a stream that is to become a file becomes one,
and no other does. The file is as long as was announced and has each chunk at its place; the same
chunks in another order make up the same file. The bytes written are always as many as there are to
be. A receiver without an answer can go on, if a file can have that name, and not for ever: each of
its moves lowers its weight. With more writers than fit, the call breaks down on every stream whose
announcement is accepted, and leaves all as it was. -/
theorem received_of_course {writers : Nat} {drawn dest : String} {tree : Tree} {folder : Path}
    (found : tree.folder dest = .ok folder)
    (free : tree.get? (folder ++ [temporaryName drawn]) = none) :
    match begin writers drawn dest items tree with
    | .error (.failed f) => announcement items.head? = .error f ∧ ¬Whole items
    | .error .aborted => (∃ a, announcement items.head? = .ok a) ∧ ¬Crew.Fits writers ∧
        ∀ schedule, receive schedule writers drawn dest items tree = (.error .aborted, tree)
    | .ok (a, r₀) => Crew.Fits writers ∧ ∀ r, Course r₀ [] r →
      match r.front with
      | .finished (.ok n) => ∃ frames contents, Upload.Exact items a.metadata a.plan frames ∧
          Name.safe a.metadata.filename = .ok a.name ∧ (n : Int) = a.metadata.originalSize.toInt ∧
          r.tree.get? (folder ++ [a.name]) = some (.file contents) ∧
          MakesUp a.plan frames contents ∧
          ∀ frames' other, frames'.Perm frames → MakesUp a.plan frames' other → other = contents
      | .finished (.error _) => ¬Whole items
      | front => (front = .syncing → r.written = a.plan.size) ∧
          (isEntryName a.name = true → tree.isFolder (folder ++ [a.name]) = false →
            ∃ m q, step m r = some q ∧ m.fault? r = none) ∧
          ∀ m q, step m r = some q → q.weight < r.weight := by
  cases hbegin : begin writers drawn dest items tree with
  | error e =>
    rcases (begin_eq_error_iff found free).1 hbegin with ⟨f, ha, rfl⟩ | ⟨announced, many, rfl⟩
    · refine ⟨ha, ?_⟩
      rintro ⟨m, plan, frames, name, exact, safe⟩
      cases ha.symm.trans (announcement_of_exact exact safe)
    · exact ⟨announced, many, fun schedule => by rw [receive, hbegin]⟩
  | ok begun =>
    obtain ⟨a, r₀⟩ := begun
    refine ⟨fits_of_begin hbegin, fun r course => ?_⟩
    obtain ⟨j, rfl, rfl, rfl, -, found', -, start⟩ := exists_job hbegin
    cases found.symm.trans found'
    -- By induction on the course: each move leads from one standing to another.
    have standing := course.standing start
    have safe := (announcement_eq_ok_iff.1 j.announced).2.2
    have moves (unfinished : ∀ v, r.front ≠ .finished v)
        (named : isEntryName j.announcement.name = true)
        (clear : j.ground.isFolder j.target = false) :
        ∃ m q, step m r = some q ∧ m.fault? r = none := by
      obtain ⟨m, q, works, h⟩ := standing.moves unfinished
      exact ⟨m, q, h, standing.fault?_eq_none works named clear⟩
    cases hf : r.front with
    | finished verdict =>
      cases verdict with
      | ok n =>
        cases standing with
        | done hf' gone clean passed there others =>
          cases hf.symm.trans hf'
          obtain ⟨frames, exact, makes⟩ := passed.exact
          exact ⟨frames, _, exact, safe, exact.announced.size_eq, there, makes,
            fun _ _ perm makes' => makes.unique exact perm makes'⟩
        | closing hf' => simp [hf] at hf'
        | reading hf' | draining hf' | clearing hf' | failed hf' => simp [hf, Front.reads] at hf'
      | error f =>
        cases standing with
        | failed hf' gone same blame => exact j.not_whole (blame rfl)
        | closing hf' => simp [hf] at hf'
        | reading hf' | draining hf' | clearing hf' | done hf' => simp [hf, Front.reads] at hf'
    | syncing =>
      refine ⟨fun _ => ?_, moves (by simp [hf]), fun m q => weight_step⟩
      cases standing with
      | closing hf' work gone clean passed =>
        exact (work.whole clean (by rw [hf]; rfl) gone passed.all).1
      | reading hf' | draining hf' | clearing hf' | failed hf' | done hf' =>
        simp [hf, Front.reads] at hf'
    | reading | enqueuing | draining | naming | clearing =>
      exact ⟨by simp, moves (by simp [hf]), fun m q => weight_step⟩

/-- Three bytes, sent in two chunks of which the last comes first, replace a file, but not with half
as many writers as a word tells apart. -/
theorem received_of_two_chunks :
    let m : Metadata :=
      { filename := "../notes.txt", originalSize := 3, chunkSize := 2, totalChunks := 2 }
    let items : List Item := [.ok (.metadata m),
      .ok (.chunk { data := [9], index := 1, isLast := true }),
      .ok (.chunk { data := [7, 8], index := 0 })]
    let tree : Tree := ⟨[(["notes.txt"], .file [1, 2, 3, 4])]⟩
    tree.folder "" = .ok [] ∧ (∃ a r₀ r, begin 2 "0" "" items tree = .ok (a, r₀) ∧
      Course r₀ [] r ∧ r.front = .finished (.ok 3) ∧
      ∃ frames contents, Upload.Exact items a.metadata a.plan frames ∧
        r.tree.get? ["notes.txt"] = some (.file contents) ∧ MakesUp a.plan frames contents) ∧
      ∀ schedule, receive schedule 0x7fffffffffffffff "0" "" items tree =
        (.error .aborted, tree) := by
  obtain ⟨r₀, begins, answer⟩ : ∃ r₀ : Receiver, r₀ =
      { plan := ⟨3, 2, by decide, by decide⟩, folder := [], name := "notes.txt"
        temporary := ".vault-0.part"
        tree := ⟨[([".vault-0.part"], .draft []), (["notes.txt"], .file [1, 2, 3, 4])]⟩
        inbound := [.ok (.chunk { data := [9], index := 1, isLast := true }),
          .ok (.chunk { data := [7, 8], index := 0 })]
        workers := [.waiting, .waiting] } ∧ (machine.run frontFirst r₀).front = .finished (.ok 3) :=
    ⟨_, rfl, rfl⟩
  intro m items tree
  let a : Announcement := ⟨m, ⟨3, 2, by decide, by decide⟩, "notes.txt"⟩
  have found : tree.folder "" = .ok [] := rfl
  have safe : Name.safe "../notes.txt" = .ok "notes.txt" := rfl
  have announced : announcement items.head? = .ok a :=
    announcement_eq_ok_iff.2 ⟨rfl, ⟨by decide, by decide, by decide⟩, safe⟩
  have free : tree.get? ([] ++ [temporaryName "0"]) = none := by decide
  have begun : begin 2 "0" "" items tree = .ok (a, r₀) :=
    begin_eq_ok_iff.2 ⟨announced, [], found, start_eq_ok_iff.2 ⟨by decide, rfl, free, begins⟩⟩
  obtain ⟨fs, course⟩ : ∃ fs, Course r₀ fs (machine.run frontFirst r₀) := Course.run frontFirst
  cases course.clean begun answer
  have received := @received_of_course items 2 "0" "" tree [] found free
  rw [begun] at received
  have whole := received.2 _ course
  rw [answer] at whole
  obtain ⟨frames, contents, exact, -, -, there, makes, -⟩ := whole
  have broken := @received_of_course items 0x7fffffffffffffff "0" "" tree [] found free
  rw [(begin_eq_error_iff found free).2 (.inr ⟨⟨a, announced⟩, by decide, rfl⟩)] at broken
  exact ⟨found, ⟨a, r₀, _, begun, course, answer, frames, contents, exact, there, makes⟩,
    broken.2.2⟩

end Strongbox.Receiving
