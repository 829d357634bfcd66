import Strongbox.Proofs.Receiving

/-!
# A receiver at work

What holds of a receiver while its temporary file is being written, whatever the stream brings and
whatever work on files fails.
-/

namespace Strongbox.Receiving

open Message

/-- A stream that is to become a file, what it announces, the folder of the file and what stands
where before. Nothing has the name of the temporary file. -/
structure Job where
  items : List Item
  announcement : Announcement
  ground : Tree
  folder : Path
  temporary : String
  announced : Receiving.announcement items.head? = .ok announcement
  vacant : ground.get? (folder ++ [temporary]) = none

namespace Job

def plan (j : Job) : Plan := j.announcement.plan

def target (j : Job) : Path := j.folder ++ [j.announcement.name]

/-- The path of the temporary file. -/
def scratch (j : Job) : Path := j.folder ++ [j.temporary]

/-- The stream brings these pieces, one for each index of its plan, and nothing else. -/
def Passes (j : Job) (ps : List Piece) : Prop :=
  Upload.Passed j.items ⟨Upload.draftOf j.announcement.metadata, j.plan⟩ ps

/-- The receiver is the one of the job. -/
structure Hosts (j : Job) (r : Receiver) : Prop where
  plan_eq : r.plan = j.plan
  folder_eq : r.folder = j.folder
  name_eq : r.name = j.announcement.name
  temporary_eq : r.temporary = j.temporary

/-- A receiver at work after this work on files has failed. It has taken some pieces off the stream;
of these it has stored some, and lost some for good. -/
structure Working (j : Job) (fs : List Failure) (r : Receiver) (taken stored lost : List Piece) :
    Prop where
  hosts : j.Hosts r
  seen : r.seen = (taken.map (·.index)).reverse
  fits : ∀ t ∈ taken, j.plan.Fits t
  nodup : (taken.map (·.index)).Nodup
  accounted : (r.pending ++ (stored ++ lost)).Perm taken
  written : r.written = sumOver (·.data.length) stored
  content : r.failure = none ↔ fs = []
  aborted : r.aborted = true → fs ≠ []
  spared : fs = [] → lost = []
  manned : r.workers ≠ []
  loyal : r.Loyal
  draft : ∃ writes, r.tree.get? j.scratch = some (.draft writes) ∧
    (fs = [] → writes = writesOf j.plan stored)
  others : ∀ p, p ≠ j.scratch → r.tree.get? p = j.ground.get? p

variable {j : Job} {fs : List Failure} {r q : Receiver} {taken stored lost : List Piece}
  {n : Nat} {fault : Option Failure}

theorem target_ne (apart : j.temporary ≠ j.announcement.name) : j.target ≠ j.scratch := by
  simpa [target, scratch] using apart.symm

namespace Hosts

variable (hosts : j.Hosts r)

include hosts

theorem target_eq : r.target = j.target := by
  rw [Receiver.target, hosts.folder_eq, hosts.name_eq, target]

theorem temporaryPath_eq : r.temporaryPath = j.scratch := by
  rw [Receiver.temporaryPath, hosts.folder_eq, hosts.temporary_eq, scratch]

theorem get?_write (p : Piece) (count : Nat) {path : Path} (h : path ≠ j.scratch) :
    (r.write p count).tree.get? path = r.tree.get? path :=
  Tree.get?_writeAt_of_ne _ _ (hosts.temporaryPath_eq ▸ h)

theorem get?_write_scratch (p : Piece) (count : Nat) {writes : List (Nat × Bytes)}
    (h : r.tree.get? j.scratch = some (.draft writes)) :
    (r.write p count).tree.get? j.scratch =
      some (.draft (writes ++ [(chunkOffset p.index j.plan.chunkSize, p.data.take count)])) := by
  rw [← hosts.temporaryPath_eq] at h ⊢
  rw [← hosts.plan_eq]
  exact Tree.get?_writeAt_self _ _ (by simp [Receiver.temporaryPath]) h

end Hosts

namespace Working

variable (work : j.Working fs r taken stored lost)

include work

/-! ## Moves of a writer -/

theorem idle {c : Crew Piece Errand} (m : r.toCrew.IdleMove .taken n c) :
    j.Working fs { r with toCrew := c } taken stored lost :=
  { work with
    hosts := { work.hosts with }
    accounted := accounted_of_idle work.accounted m
    manned := by
      rw [← List.length_pos_iff, m.length_eq, List.length_pos_iff]
      exact work.manned
    loyal := work.loyal.idle m }

theorem drop {p : Piece} (hw : r.workers[n]? = some (.busy (.taken p))) (ha : r.aborted = true) :
    j.Working fs (r.setWriter n .waiting) taken stored (lost ++ [p]) :=
  { work with
    hosts := { work.hosts with }
    accounted := accounted_of_moved work.accounted hw fun measure => by
      simp only [Hand.inHand, Errand.inHand, sumOver_append, sumOver_cons, sumOver_nil]
      omega
    spared := fun clean => absurd clean (work.aborted ha)
    manned := fun h => work.manned ((List.set_eq_nil_iff _ _).1 h)
    loyal := work.loyal.setWorker nofun }

theorem ready {p : Piece} (hw : r.workers[n]? = some (.busy (.taken p))) :
    j.Working fs (r.setWriter n (.busy (.writing p))) taken stored lost :=
  { work with
    hosts := { work.hosts with }
    accounted := accounted_of_moved work.accounted hw fun _ => rfl
    manned := fun h => work.manned ((List.set_eq_nil_iff _ _).1 h)
    loyal := work.loyal.setWorker nofun }

theorem write {p : Piece} (hw : r.workers[n]? = some (.busy (.writing p))) :
    j.Working fs
      ({ r.write p p.data.length with written := r.written + p.data.length }.setWriter n .waiting)
      taken (stored ++ [p]) lost :=
  { work with
    hosts := { work.hosts with }
    accounted := accounted_of_moved work.accounted hw fun measure => by
      simp only [Hand.inHand, Errand.inHand, sumOver_append, sumOver_cons, sumOver_nil]
      omega
    written := by
      rw [sumOver_append, sumOver_cons, sumOver_nil, ← work.written]
      rfl
    manned := fun h => work.manned ((List.set_eq_nil_iff _ _).1 h)
    loyal := work.loyal.setWorker nofun
    draft := by
      obtain ⟨writes, there, same⟩ := work.draft
      refine ⟨_, work.hosts.get?_write_scratch p p.data.length there, fun none_failed => ?_⟩
      rw [same none_failed, List.take_length, writesOf, writesOf, List.map_append]
      rfl
    others := fun path h => (work.hosts.get?_write p p.data.length h).trans (work.others path h) }

/-- A write fails, having put some of its bytes in their place. -/
theorem spoil {p : Piece} (count : Nat) (f : Failure)
    (hw : r.workers[n]? = some (.busy (.writing p))) :
    j.Working (fs ++ [f])
      ({ r.write p count with aborted := true, failure := r.failure.or (some f) }.setWriter n
        .waiting) taken stored (lost ++ [p]) :=
  { work with
    hosts := { work.hosts with }
    accounted := accounted_of_moved work.accounted hw fun measure => by
      simp only [Hand.inHand, Errand.inHand, sumOver_append, sumOver_cons, sumOver_nil]
      omega
    content := by simp [Receiver.setWriter]
    aborted := fun _ => by simp
    spared := by simp
    manned := fun h => work.manned ((List.set_eq_nil_iff _ _).1 h)
    loyal := work.loyal.setWorker nofun
    draft := by
      obtain ⟨writes, there, -⟩ := work.draft
      exact ⟨_, work.hosts.get?_write_scratch p count there, by simp⟩
    others := fun path h => (work.hosts.get?_write p count h).trans (work.others path h) }

theorem writer (move : WriterMove r n fault q) :
    (∃ stored lost, j.Working (fs ++ fault.toList) q taken stored lost) ∧ q.front = r.front ∧
      q.closed = r.closed ∧ q.inbound = r.inbound := by
  cases move <;> simp only [Option.toList_none, Option.toList_some, List.append_nil]
  case idle m => exact ⟨⟨_, _, work.idle m⟩, trivial, m.closed_eq, trivial⟩
  case drop hw ha => exact ⟨⟨_, _, work.drop hw ha⟩, rfl, rfl, rfl⟩
  case ready hw ha => exact ⟨⟨_, _, work.ready hw⟩, rfl, rfl, rfl⟩
  case write hw => exact ⟨⟨_, _, work.write hw⟩, rfl, rfl, rfl⟩
  case fail hw => exact ⟨⟨_, _, work.spoil _ _ hw⟩, rfl, rfl, rfl⟩

/-! ## Moves of the front -/

/-- The front elsewhere, with the same piece in its hands. -/
theorem elsewhere {front : Front} {inbound : List Item} {closed : Bool}
    (same : front.inHand = r.front.inHand) (shut : r.closed = true → closed = true) :
    j.Working fs { r with front := front, inbound := inbound, closed := closed } taken stored
      lost :=
  { work with
    hosts := { work.hosts with }
    accounted := by
      have before := work.accounted
      rw [Receiver.pending] at before ⊢
      rwa [same]
    loyal := fun gone => ⟨shut (work.loyal gone).1, (work.loyal gone).2⟩ }

theorem take {p : Piece} {inbound : List Item} (hf : r.front = .reading) (fits : j.plan.Fits p)
    (unseen : p.index ∉ r.seen) :
    j.Working fs { r with front := .enqueuing p, inbound := inbound, seen := p.index :: r.seen }
      (taken ++ [p]) stored lost :=
  { work with
    hosts := { work.hosts with }
    seen := by
      rw [work.seen, List.map_append, List.reverse_append]
      rfl
    fits := fun t ht => (List.mem_append.1 ht).elim (work.fits t) fun h =>
      List.mem_singleton.1 h ▸ fits
    nodup := Keyed.nodup_append Piece.index work.nodup (by
      rwa [work.seen, List.mem_reverse] at unseen)
    accounted := accounted_of_turned r.queue work.accounted fun measure => by
      simp only [hf, Front.inHand, sumOver_append, sumOver_cons, sumOver_nil]
      omega }

theorem enqueue {p : Piece} (hf : r.front = .enqueuing p) (opened : r.closed = false) :
    j.Working fs { r with front := .reading, queue := r.queue ++ [p] } taken stored lost :=
  { work with
    hosts := { work.hosts with }
    accounted := accounted_of_turned (r.queue ++ [p]) work.accounted fun measure => by
      simp only [hf, Front.inHand, sumOver_append, sumOver_cons, sumOver_nil]
      omega
    loyal := work.loyal.put opened p }

/-! ## When the writers have left -/

/-- Once the writers have left, all that was taken is stored, unless work has failed. -/
theorem all_stored (none_failed : fs = []) (idle : r.front.inHand = [])
    (gone : ∀ w ∈ r.workers, w = .exited) : stored.Perm taken := by
  simpa only [Receiver.pending, idle, work.loyal.pending_eq_nil work.manned gone,
    work.spared none_failed, List.append_nil, List.nil_append] using work.accounted

/-- Once the writers have left, and there is one piece for each index, the temporary file is the
whole file, unless work has failed. -/
theorem whole (none_failed : fs = []) (idle : r.front.inHand = [])
    (gone : ∀ w ∈ r.workers, w = .exited)
    (all : (taken.map (·.index)).Perm (List.range j.plan.total)) :
    r.written = j.plan.size ∧ ∃ n, r.tree.get? j.scratch = some n ∧
      n.settled = .file (j.plan.assemble taken) := by
  have perm := work.all_stored none_failed idle gone
  have fits : ∀ t ∈ stored, j.plan.Fits t := fun t ht => work.fits t (perm.mem_iff.1 ht)
  have indices := (perm.map (·.index)).trans all
  have cuts : j.plan.Cuts (j.plan.assemble taken) stored := fun t ht =>
    Plan.cuts_assemble work.fits work.nodup t (perm.mem_iff.1 ht)
  obtain ⟨writes, there, same⟩ := work.draft
  refine ⟨work.written.trans (Plan.sumOver_of_perm fits indices), _, there, ?_⟩
  rw [same none_failed, settled_writesOf,
    Plan.fill_eq (Plan.length_assemble _ _).symm cuts indices]

end Working

end Job

end Strongbox.Receiving
