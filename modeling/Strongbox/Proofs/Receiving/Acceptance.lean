import Strongbox.Proofs.Receiving.Verdict

/-!
# Which exact streams are received

An exact stream can only be refused for the name that it gives.
-/

namespace Strongbox.Receiving

open Message

/-- A stream becomes a file, whoever receives it with writers that fit, in whatever folder and with
any temporary file that can be made there: while no work on files fails, the receiver can only end
well, and if a file can have that name it can go on until then, but not for ever. -/
def Lands (items : List Item) (m : Metadata) (plan : Plan) (name : String) (contents : Bytes) :
    Prop :=
  ∀ writers drawn dest tree folder, Crew.Fits writers → tree.folder dest = .ok folder →
    tree.get? (folder ++ [temporaryName drawn]) = none →
    ∃ r₀, begin writers drawn dest items tree = .ok (⟨m, plan, name⟩, r₀) ∧ ∀ r, Course r₀ [] r →
      match r.front with
      | .finished v =>
        v = .ok plan.size ∧ r.tree.get? (folder ++ [name]) = some (.file contents)
      | _ =>
        (isEntryName name = true → tree.isFolder (folder ++ [name]) = false →
          ∃ m q, step m r = some q ∧ m.fault? r = none) ∧
        ∀ m q, step m r = some q → q.weight < r.weight

variable {items : List Item} {m : Metadata} {plan : Plan} {frames : List Message.Chunk}
  {contents : Bytes} {name : String} {f : Failure}

/-- The frames of an exact stream bring the chunks of what they are assembled to. -/
theorem cuts_of_exact (exact : Upload.Exact items m plan frames) :
    plan.Cuts (plan.assemble (frames.map Upload.pieceOf)) (frames.map Upload.pieceOf) :=
  Plan.cuts_assemble (Upload.fits_of_read exact.passed.read)
    (exact.passed.all.nodup_iff.2 List.nodup_range)

theorem makesUp_of_exact (exact : Upload.Exact items m plan frames) :
    MakesUp plan frames (plan.assemble (frames.map Upload.pieceOf)) :=
  ⟨Plan.length_assemble _ _, fun _ hc => (cuts_of_exact exact _ (List.mem_map_of_mem hc)).2.symm⟩

theorem exact_unique {m' : Metadata} {plan' : Plan} {frames' : List Message.Chunk}
    (exact : Upload.Exact items m plan frames) (exact' : Upload.Exact items m' plan' frames') :
    m' = m ∧ frames' = frames := by
  obtain ⟨first, others⟩ := List.cons.inj (exact'.stream.symm.trans exact.stream)
  cases first
  exact ⟨rfl, Upload.itemsOf_inj others⟩

theorem lands_of_exact (exact : Upload.Exact items m plan frames)
    (safe : Name.safe m.filename = .ok name) (makes : MakesUp plan frames contents) :
    Lands items m plan name contents := by
  intro writers drawn dest tree folder fits found free
  obtain ⟨r₀, begun⟩ := exists_begin fits (announcement_of_exact exact safe) found free
  refine ⟨r₀, begun, fun r course => ?_⟩
  obtain ⟨j, rfl, announced, rfl, -, found', -, start⟩ := exists_job begun
  cases found.symm.trans found'
  have standing := course.standing start
  have plan_eq : j.plan = plan := congrArg Announcement.plan announced
  have target_eq : j.target = j.folder ++ [name] := by rw [Job.target, announced]
  have moves (unfinished : ∀ v, r.front ≠ .finished v) (named : isEntryName name = true)
      (clear : j.ground.isFolder (j.folder ++ [name]) = false) :
      ∃ m q, step m r = some q ∧ m.fault? r = none := by
    obtain ⟨m, q, works, h⟩ := standing.moves unfinished
    exact ⟨m, q, h, standing.fault?_eq_none works (by rw [announced]; exact named)
      (target_eq ▸ clear)⟩
  cases hf : r.front with
  | finished v =>
    cases standing with
    | done hf' gone clean passed there =>
      cases hf.symm.trans hf'
      obtain ⟨frames', exact', makes'⟩ := passed.exact
      obtain ⟨-, rfl⟩ := exact_unique exact exact'
      rw [target_eq] at there
      rw [plan_eq] at there makes'
      refine ⟨congrArg _ (congrArg Plan.size plan_eq), ?_⟩
      rw [there, makes.unique exact (.refl _) makes']
    | failed hf' gone same blame =>
      exact absurd ⟨m, plan, frames, name, exact, safe⟩ (j.not_whole (blame rfl))
    | closing hf' => simp [hf] at hf'
    | reading hf' | draining hf' | clearing hf' => simp [hf, Front.reads] at hf'
  | reading | enqueuing | draining | syncing | naming | clearing =>
    exact ⟨moves (by simp [hf]), fun m q => weight_step⟩

/-- A stream that announces a plan and an unusable name is refused for the name, and leaves nothing
behind. -/
theorem receive_of_refused (head_eq : items.head? = some (.ok (.metadata m)))
    (announced : Upload.Announces m plan) (refused : Name.safe m.filename = .error f)
    (schedule : Schedule Move) (writers : Nat) (drawn dest : String) (tree : Tree) :
    receive schedule writers drawn dest items tree = (.error (.failed f), tree) := by
  have size : natural "size" m.originalSize.toInt = .ok plan.size :=
    natural_eq_ok_iff.2 announced.size_eq
  have total : natural "total chunks" m.totalChunks.toInt = .ok plan.total :=
    natural_eq_ok_iff.2 announced.total_eq
  have chunkSize : natural "chunk size" m.chunkSize.toInt = .ok plan.chunkSize :=
    natural_eq_ok_iff.2 announced.chunkSize_eq
  have declared : Plan.declared plan.size plan.chunkSize plan.total = .ok plan :=
    Plan.declared_eq_ok_iff.2 ⟨rfl, rfl, rfl⟩
  have turned : announcement items.head? = .error f := by
    rw [head_eq, announcement, Announcement.ofMetadata, size, total, chunkSize]
    simp only [bind, Except.bind, mapError_eq_ok_iff.2 declared, refused]
  simp only [receive, begin, turned, liftM_error, bind, Except.bind]

end Strongbox.Receiving
