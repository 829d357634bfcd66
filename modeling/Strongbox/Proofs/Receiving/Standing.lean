import Strongbox.Proofs.Receiving.Working

/-!
# Where a receiver may stand

From its beginning to its answer, whatever the stream brings and whatever work on files fails.
-/

namespace Strongbox.Receiving

open Message

variable {j : Job} {fs : List Failure} {r r₀ q : Receiver} {taken stored lost ps : List Piece}
  {n : Nat} {fault : Option Failure} {read rest : List Item} {item : Item}

namespace Job

/-- Where a receiver may stand after this work on files has failed. A download that is given up has
met failed work, or the stream is to blame. -/
inductive Standing (j : Job) (fs : List Failure) (r : Receiver) : Prop where
  | reading {taken stored lost : List Piece} {read : List Item} (hf : r.front.reads = true)
      (work : j.Working fs r taken stored lost) (opened : r.closed = false)
      (cut : j.items.tail = read ++ r.inbound)
      (brought : read.map (Upload.piece j.plan) = taken.map .ok)
  | draining {failure : Option Failure} {taken stored lost : List Piece}
      (hf : r.front = .draining failure) (work : j.Working fs r taken stored lost)
      (closed : r.closed = true) (refused : failure ≠ none → ∀ ps, ¬j.Passes ps)
      (brought : failure = none → fs = [] →
        j.items.tail.map (Upload.piece j.plan) = taken.map .ok)
  | closing {taken stored lost : List Piece} (hf : r.front = .syncing ∨ r.front = .naming)
      (work : j.Working fs r taken stored lost) (gone : ∀ w ∈ r.workers, w = .exited)
      (clean : fs = []) (passed : j.Passes taken)
  | clearing {f : Failure} (hf : r.front = .clearing f) (hosts : j.Hosts r)
      (gone : ∀ w ∈ r.workers, w = .exited)
      (others : ∀ p, p ≠ j.scratch → r.tree.get? p = j.ground.get? p)
      (blame : fs = [] → ∀ ps, ¬j.Passes ps)
  | failed {f : Failure} (hf : r.front = .finished (.error f))
      (gone : ∀ w ∈ r.workers, w = .exited) (same : ∀ p, r.tree.get? p = j.ground.get? p)
      (blame : fs = [] → ∀ ps, ¬j.Passes ps)
  | done {ps : List Piece} (hf : r.front = .finished (.ok j.plan.size))
      (gone : ∀ w ∈ r.workers, w = .exited) (clean : fs = []) (passed : j.Passes ps)
      (there : r.tree.get? j.target = some (.file (j.plan.assemble ps)))
      (others : ∀ p, p ≠ j.target → r.tree.get? p = j.ground.get? p)

/-! ## What can be said against a stream -/

/-- The stream has a frame that brings no chunk, or one that was seen before. -/
theorem not_passes_of_refused {f : Failure} {seen : List Nat}
    (cut : j.items.tail = read ++ item :: rest)
    (brought : read.map (Upload.piece j.plan) = taken.map .ok)
    (seen_eq : seen = (taken.map (·.index)).reverse) (hp : piece j.plan seen item = .error f) :
    ¬j.Passes ps := by
  intro passes
  have frames := passes.read
  rw [cut, List.map_append, List.map_cons, brought] at frames
  obtain ⟨first, others, rfl, same, next⟩ := List.map_eq_append_iff.1 frames.symm
  cases (List.map_inj_right fun _ _ => Except.ok.inj).1 same
  obtain ⟨p, others, rfl, hitem, -⟩ := List.map_eq_cons_iff.1 next
  have nodup := passes.all.nodup_iff.2 List.nodup_range
  rw [List.map_append, List.map_cons] at nodup
  have unseen : p.index ∉ seen := by
    rw [seen_eq, List.mem_reverse]
    exact fun before => (List.nodup_append.1 nodup).2.2 _ before _ List.mem_cons_self rfl
  rw [piece_eq_ok_iff.2 ⟨hitem.symm, unseen⟩] at hp
  cases hp

theorem not_passes_of_length (brought : j.items.tail.map (Upload.piece j.plan) = taken.map .ok)
    (count : taken.length ≠ j.plan.total) : ¬j.Passes ps := by
  intro passes
  have same : ps.map Except.ok = taken.map Except.ok := passes.read.symm.trans brought
  cases (List.map_inj_right fun _ _ => Except.ok.inj).1 same
  have := passes.all.length_eq
  rw [List.length_map, List.length_range] at this
  exact count this

theorem Working.passes (work : j.Working fs r taken stored lost)
    (brought : j.items.tail.map (Upload.piece j.plan) = taken.map .ok)
    (count : r.seen.length = r.plan.total) : j.Passes taken where
  offered := by
    obtain ⟨head_eq, announced, -⟩ := announcement_eq_ok_iff.1 j.announced
    exact Upload.offer_eq_ok_iff.2 ⟨_, head_eq, announced, rfl⟩
  read := brought
  all := by
    rw [work.seen, List.length_reverse, work.hosts.plan_eq] at count
    refine perm_range work.nodup (fun i hi => ?_) count
    obtain ⟨t, ht, rfl⟩ := List.mem_map.1 hi
    exact (work.fits t ht).lt_total

/-! ## Moves -/

theorem get?_erase {tree : Tree} (others : ∀ p, p ≠ j.scratch → tree.get? p = j.ground.get? p)
    (p : Path) : (tree.erase j.scratch).get? p = j.ground.get? p := by
  by_cases here : p = j.scratch
  · rw [here, Tree.get?_erase_self _ (by simp [scratch])]
    exact j.vacant.symm
  · rw [Tree.get?_erase_of_ne _ here]
    exact others p here

namespace Working

variable (work : j.Working fs r taken stored lost) (move : FrontMove r fault q)

include work move

/-- A front that takes frames goes on with it, or has something to say against the stream, or stops
when work has failed or all is read. -/
theorem read_on (hf : r.front.reads = true) (opened : r.closed = false)
    (cut : j.items.tail = read ++ r.inbound)
    (brought : read.map (Upload.piece j.plan) = taken.map .ok) :
    j.Standing (fs ++ fault.toList) q := by
  cases move
  all_goals try simp only [Option.toList_none, List.append_nil]
  case finish hf' hi =>
    refine .draining rfl (work.elsewhere (by rw [hf']; rfl) fun _ => rfl) rfl nofun fun _ _ => ?_
    rw [cut, hi, List.append_nil]
    exact brought
  case stop hf' hi ha =>
    exact .draining rfl (work.elsewhere (by rw [hf']; rfl) fun _ => rfl) rfl nofun
      fun _ clean => absurd clean (work.aborted ha)
  case refuse hf' hi ha hp =>
    rw [hi] at cut
    rw [work.hosts.plan_eq] at hp
    exact .draining rfl (work.elsewhere (by rw [hf']; rfl) fun _ => rfl) rfl
      (fun _ _ => not_passes_of_refused cut brought work.seen hp) nofun
  case take item rest p hf' hi ha hp =>
    rw [work.hosts.plan_eq] at hp
    obtain ⟨hitem, unseen⟩ := piece_eq_ok_iff.1 hp
    obtain ⟨c, -, hc⟩ := Upload.piece_eq_ok_iff.1 hitem
    have cut' : j.items.tail = (read ++ [item]) ++ rest := by
      rw [cut, hi, List.append_assoc]
      rfl
    have brought' : (read ++ [item]).map (Upload.piece j.plan) = (taken ++ [p]).map .ok := by
      rw [List.map_append, List.map_append, brought, List.map_singleton, hitem]
      rfl
    exact .reading rfl (work.take hf' (Plan.piece_eq_ok_iff.1 hc).2.2 unseen) opened cut' brought'
  case enqueue p hf' room => exact .reading rfl (work.enqueue hf' opened) opened cut brought
  -- The other moves are made by a front that takes no more frames.
  all_goals simp_all [Front.reads]

/-- Once the writers have left, the front judges what was brought. -/
theorem judge {failure : Option Failure} (hf : r.front = .draining failure)
    (refused : failure ≠ none → ∀ ps, ¬j.Passes ps)
    (brought : failure = none → fs = [] →
      j.items.tail.map (Upload.piece j.plan) = taken.map .ok) :
    j.Standing (fs ++ fault.toList) q := by
  cases move
  all_goals try simp only [Option.toList_none, List.append_nil]
  case fail failure f hf' gone hv =>
    cases hf.symm.trans hf'
    refine .clearing rfl { work.hosts with } (Crew.deserted_iff.1 gone) work.others fun clean => ?_
    refine refused fun none_refused => ?_
    rw [none_refused, work.content.2 clean] at hv
    cases hv
  case lack failure f hf' gone hv count =>
    cases hf.symm.trans hf'
    refine .clearing rfl { work.hosts with } (Crew.deserted_iff.1 gone) work.others
      fun clean ps => ?_
    rw [work.seen, List.length_reverse, List.length_map, work.hosts.plan_eq] at count
    exact not_passes_of_length (brought (Option.or_eq_none_iff.1 hv).1 clean) count
  case complete failure hf' gone hv count =>
    cases hf.symm.trans hf'
    obtain ⟨none_refused, none_failed⟩ := Option.or_eq_none_iff.1 hv
    have clean := work.content.1 none_failed
    exact .closing (.inl rfl) (work.elsewhere (by rw [hf]; rfl) id) (Crew.deserted_iff.1 gone) clean
      (work.passes (brought none_refused clean) count)
  all_goals simp_all

/-- A file that is whole is given its name, unless work fails. -/
theorem conclude (hf : r.front = .syncing ∨ r.front = .naming)
    (gone : ∀ w ∈ r.workers, w = .exited) (clean : fs = []) (passed : j.Passes taken) :
    j.Standing (fs ++ fault.toList) q := by
  have idle : r.front.inHand = [] := by rcases hf with hf | hf <;> rw [hf] <;> rfl
  obtain ⟨count, node, there, settled⟩ := work.whole clean idle gone passed.all
  cases move
  all_goals try simp only [Option.toList_none, List.append_nil]
  case unsynced f hf' => exact .clearing rfl { work.hosts with } gone work.others (by simp)
  case miscount f hf' miscount => exact absurd (work.hosts.plan_eq ▸ count) miscount
  case sync hf' _ => exact .closing (.inr rfl) (work.elsewhere idle.symm id) gone clean passed
  case unnamed f hf' => exact .clearing rfl { work.hosts with } gone work.others (by simp)
  case name tree hf' hr =>
    obtain ⟨node', there', rfl⟩ := Tree.eq_of_rename hr
    have scratch_eq : r.folder ++ [r.temporary] = j.scratch := work.hosts.temporaryPath_eq
    have target_eq : r.folder ++ [r.name] = j.target := work.hosts.target_eq
    rw [scratch_eq] at there' ⊢
    rw [target_eq]
    cases there.symm.trans there'
    refine .done (by rw [count]) gone clean passed ?_ fun p hp => ?_
    · rw [Tree.get?_set_self _ _ (by simp [target]), settled]
    · rw [Tree.get?_set_of_ne _ _ hp]
      exact get?_erase work.others p
  all_goals simp_all

end Working

namespace Standing

/-- Every move of the front keeps a receiver where it should be. -/
theorem front (standing : j.Standing fs r) (move : FrontMove r fault q) :
    j.Standing (fs ++ fault.toList) q := by
  cases standing with
  | reading hf work opened cut brought => exact work.read_on move hf opened cut brought
  | draining hf work closed refused brought => exact work.judge move hf refused brought
  | closing hf work gone clean passed => exact work.conclude move hf gone clean passed
  | clearing hf hosts gone others blame =>
    cases move
    case clear f hf' =>
      refine .failed rfl gone (fun p => ?_) (by simpa using blame)
      rw [hosts.temporaryPath_eq]
      exact get?_erase others p
    all_goals simp_all
  | failed hf | done hf => cases move <;> simp_all

/-- Every move of a writer keeps a receiver where it should be. -/
theorem writer (standing : j.Standing fs r) (move : WriterMove r n fault q) :
    j.Standing (fs ++ fault.toList) q := by
  have present : ¬∀ w ∈ r.workers, w = .exited := move.present.not_gone
  cases standing with
  | reading hf work opened cut brought =>
    obtain ⟨⟨stored, lost, work'⟩, front_eq, closed_eq, inbound_eq⟩ := work.writer move
    exact .reading (front_eq ▸ hf) work' (closed_eq ▸ opened) (inbound_eq ▸ cut) brought
  | draining hf work closed refused brought =>
    obtain ⟨⟨stored, lost, work'⟩, front_eq, closed_eq, -⟩ := work.writer move
    exact .draining (front_eq ▸ hf) work' (closed_eq ▸ closed) refused fun none_refused clean =>
      brought none_refused (List.append_eq_nil_iff.1 clean).1
  | closing _ _ gone | clearing _ _ gone | failed _ gone | done _ gone => exact absurd gone present

theorem step {m : Move} (standing : j.Standing fs r) (h : Receiving.step m r = some q) :
    j.Standing (fs ++ (m.fault? r).toList) q := by
  cases m with
  | front fault => exact standing.front (frontMove_of_step h)
  | writer n fault => exact standing.writer (writerMove_of_step h)

/-! ## Progress -/

theorem exists_rename (named : isEntryName j.announcement.name = true)
    (clear : j.ground.isFolder j.target = false) (work : j.Working fs r taken stored lost) :
    ∃ tree, r.tree.rename r.folder r.temporary r.name = .ok tree := by
  obtain ⟨writes, there, -⟩ := work.draft
  rw [← work.hosts.temporaryPath_eq] at there
  have still : r.tree.isFolder (r.folder ++ [r.name]) = false := by
    show r.tree.isFolder r.target = false
    rw [work.hosts.target_eq]
    by_cases same : j.target = j.scratch
    · rw [same, ← work.hosts.temporaryPath_eq, Tree.isFolder, there]
      rfl
    · rw [Tree.isFolder, work.others _ same]
      exact clear
  rw [← work.hosts.name_eq] at named
  exact ⟨_, Tree.rename_eq_ok named still there⟩

/-- Moves that work do not fail, if the file can have its name. -/
theorem fault?_eq_none {m : Move} (standing : j.Standing fs r) (works : m.works = true)
    (named : isEntryName j.announcement.name = true) (clear : j.ground.isFolder j.target = false) :
    m.fault? r = none := by
  cases m with
  | writer n fault =>
    obtain rfl : fault = none := Option.isNone_iff_eq_none.1 works
    exact fault?_writer r n
  | front fault =>
    obtain rfl : fault = none := Option.isNone_iff_eq_none.1 works
    cases hf : r.front with
    | naming =>
      cases standing with
      | closing _ work =>
        obtain ⟨tree, hr⟩ := exists_rename named clear work
        simp only [Move.fault?, hf, hr]
        rfl
      | reading hf' | draining hf' | clearing hf' | failed hf' | done hf' =>
        simp [hf, Front.reads] at hf'
    | reading | enqueuing | draining | syncing | clearing | finished => simp only [Move.fault?, hf]

/-- Until it has an answer, a receiver has a move that works. -/
theorem moves (standing : j.Standing fs r) (unfinished : ∀ v, r.front ≠ .finished v) :
    ∃ m q, m.works = true ∧ Receiving.step m r = some q := by
  cases standing with
  | reading hf work opened =>
    refine exists_move work.manned work.loyal ?_ unfinished
    intro failure hd
    simp [hd, Front.reads] at hf
  | draining hf work closed =>
    exact exists_move work.manned work.loyal (fun _ _ => closed) unfinished
  | closing hf work =>
    refine exists_move work.manned work.loyal ?_ unfinished
    intro failure hd
    simp [hd] at hf
  | clearing hf => exact ⟨.front none, _, rfl, by simp only [Receiving.step, stepFront, hf]; rfl⟩
  | failed hf | done hf => exact absurd hf (unfinished _)

end Standing

end Job

theorem Course.standing (course : Course r₀ fs r) (standing : j.Standing [] r₀) :
    j.Standing fs r := by
  induction course with
  | start => exact standing
  | move course h ih => exact ih.step h

/-! ## The beginning -/

/-- A receiver begins where the name drawn for its temporary file is free, if its writers fit. -/
theorem exists_begin {writers : Nat} {drawn dest : String} {items : List Item} {tree : Tree}
    {a : Announcement} {folder : Path} (fits : Crew.Fits writers)
    (announced : announcement items.head? = .ok a) (found : tree.folder dest = .ok folder)
    (free : tree.get? (folder ++ [temporaryName drawn]) = none) :
    ∃ r, begin writers drawn dest items tree = .ok (a, r) :=
  ⟨_, begin_eq_ok_iff.2 ⟨announced, folder, found,
    start_eq_ok_iff.2 ⟨fits, Tree.isFolder_of_folder found, free, rfl⟩⟩⟩

/-- Where the name drawn for the temporary file is free, nothing keeps a receiver from beginning but
the announcement and too many writers. -/
theorem begin_eq_error_iff {writers : Nat} {drawn dest : String} {items : List Item} {tree : Tree}
    {folder : Path} {e : Halt Failure} (found : tree.folder dest = .ok folder)
    (free : tree.get? (folder ++ [temporaryName drawn]) = none) :
    begin writers drawn dest items tree = .error e ↔
      (∃ f, announcement items.head? = .error f ∧ e = .failed f) ∨
      (∃ a, announcement items.head? = .ok a) ∧ ¬Crew.Fits writers ∧ e = .aborted := by
  have created := Tree.create_eq_ok_iff.2 ⟨Tree.isFolder_of_folder found, free, rfl⟩
  cases ha : announcement items.head? with
  | error f => simp [begin, ha, liftM_error, bind, Except.bind, eq_comm]
  | ok a =>
    by_cases fits : Crew.Fits writers
    · obtain ⟨r, begun⟩ := exists_begin fits ha found free
      simp [begun, fits]
    · simp [begin, Receiver.start, ha, found, created, liftM_ok, bind, Except.bind, fits, eq_comm,
        throw, throwThe, MonadExceptOf.throw]

/-- What a receiver begins with is a job, and it stands where it should. -/
theorem exists_job {writers : Nat} {drawn dest : String} {items : List Item} {tree : Tree}
    {a : Announcement} (h : begin writers drawn dest items tree = .ok (a, r)) :
    ∃ j : Job, j.items = items ∧ j.announcement = a ∧ j.ground = tree ∧
      j.temporary = temporaryName drawn ∧ tree.folder dest = .ok j.folder ∧ j.Hosts r ∧
      j.Standing [] r := by
  obtain ⟨ha, folder, found, started⟩ := begin_eq_ok_iff.1 h
  obtain ⟨-, -, free, rfl⟩ := start_eq_ok_iff.1 started
  have waiting : ∀ w ∈ List.replicate (max writers 1) (Hand.waiting : Hand Errand), w = .waiting :=
    fun _ => List.eq_of_mem_replicate
  let j : Job := ⟨items, a, tree, folder, _, ha, free⟩
  refine ⟨j, rfl, rfl, rfl, rfl, found, ⟨rfl, rfl, rfl, rfl⟩,
    .reading rfl (?work : j.Working [] _ [] [] []) rfl (List.nil_append _).symm rfl⟩
  exact {
    hosts := ⟨rfl, rfl, rfl, rfl⟩
    seen := rfl
    fits := nofun
    nodup := List.nodup_nil
    accounted := by
      rw [Receiver.pending, Crew.pending, Crew.inHand_of_waiting waiting]
      exact .refl _
    written := rfl
    content := ⟨fun _ => rfl, fun _ => rfl⟩
    aborted := nofun
    spared := fun _ => rfl
    manned := fun empty => by
      have none_there := (List.replicate_eq_nil_iff _).1 empty
      omega
    loyal := .of_waiting waiting
    draft := ⟨[], Tree.get?_set_self _ _ (by simp), fun _ => rfl⟩
    others := fun p hp => Tree.get?_set_of_ne tree _ hp }

/-- A download that ends well has met no failure on its way. -/
theorem Course.clean {writers : Nat} {drawn dest : String} {items : List Item} {tree : Tree}
    {a : Announcement} (begun : begin writers drawn dest items tree = .ok (a, r₀))
    (course : Course r₀ fs r) (hf : r.front = .finished (.ok n)) : fs = [] := by
  obtain ⟨j, -, -, -, -, -, -, start⟩ := exists_job begun
  cases course.standing start with
  | done _ _ clean => exact clean
  | closing hf' => simp [hf] at hf'
  | reading hf' | draining hf' | clearing hf' | failed hf' => simp [hf, Front.reads] at hf'

/-- A receiver that has begun ends with an answer, if no work fails. -/
theorem answered_of_run {writers : Nat} {drawn dest : String} {items : List Item} {tree : Tree}
    {a : Announcement} (begun : begin writers drawn dest items tree = .ok (a, r₀)) :
    ∃ v, (machine.run frontFirst r₀).front = .finished v := by
  obtain ⟨j, -, -, -, -, -, -, start⟩ := exists_job begun
  obtain ⟨fs, course⟩ : ∃ fs, Course r₀ fs (machine.run frontFirst r₀) := Course.run frontFirst
  refine Classical.byContradiction fun unanswered => ?_
  obtain ⟨m, q, works, h⟩ := (course.standing start).moves (not_exists.1 unanswered)
  have idle {m : Move} (asked : m ∈ frontFirst (machine.run frontFirst r₀).weight
      (machine.run frontFirst r₀).workers.length) :
      Receiving.step m (machine.run frontFirst r₀) = none := Machine.step_run (M := machine) asked
  cases m with
  | front fault =>
    obtain rfl : fault = none := Option.isNone_iff_eq_none.1 works
    cases h.symm.trans (idle (by simp [frontFirst]))
  | writer n fault =>
    obtain rfl : fault = none := Option.isNone_iff_eq_none.1 works
    have move : stepWriter n none (machine.run frontFirst r₀) = some q := h
    have there := (writerMove_of_step move).present.lt_length
    cases h.symm.trans (idle (by simpa [frontFirst] using there))

end Strongbox.Receiving
