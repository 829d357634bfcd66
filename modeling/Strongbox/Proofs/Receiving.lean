import Strongbox.Proofs.Receiving.Announcement
import Strongbox.Proofs.Receiving.Moves
import Strongbox.Proofs.Sending.Payload
import Strongbox.Proofs.Tree

/-!
# What a receiver makes of a stream
-/

namespace Strongbox.Receiving

open Message

def Front.inHand : Front → List Piece
  | enqueuing p => [p]
  | _ => []

def Errand.inHand : Errand → List Piece
  | taken p | writing p => [p]

/-- The chunks that are still under way. -/
def Receiver.pending (r : Receiver) : List Piece :=
  r.front.inHand ++ r.toCrew.pending Errand.inHand

def writesOf (plan : Plan) (ps : List Piece) : List (Nat × Bytes) :=
  ps.map fun t => (chunkOffset t.index plan.chunkSize, t.data)

theorem settled_writesOf (plan : Plan) (ps : List Piece) :
    (Node.draft (writesOf plan ps)).settled = .file (plan.fill ps) := by
  rw [Node.settled, Node.contents?, Option.elim, writesOf, List.foldl_map, Plan.fill]

/-- A receiver at work on the frames of a payload: some have been read, some have come and are not
read yet, and these pieces have been written. -/
structure Intact (payload : Bytes) (plan : Plan) (folder : Path) (name : String) (r : Receiver)
    (got coming : List Message.Chunk) (put : List Piece) : Prop where
  plan_eq : r.plan = plan
  folder_eq : r.folder = folder
  name_eq : r.name = name
  inbound : r.inbound = Upload.itemsOf coming
  cut : ∀ c ∈ got ++ coming, ∃ i, Sending.cut? payload plan i = some c
  nodup : ((got ++ coming).map (·.index.toInt.toNat)).Nodup
  seen : r.seen = (got.map (·.index.toInt.toNat)).reverse
  accounted : (r.pending ++ put).Perm (got.map Upload.pieceOf)
  written : r.written = sumOver (·.data.length) put
  running : r.aborted = false
  content : r.failure = none
  manned : r.workers ≠ []
  loyal : r.Loyal
  draft : r.tree.get? r.temporaryPath = some (.draft (writesOf plan put))
  clear : r.tree.isFolder (folder ++ [name]) = false

/-- How far a receiver at work has come. -/
inductive Stage (plan : Plan) (r : Receiver) (got : List Message.Chunk) : Prop where
  | reading (hf : r.front.reads = true) (opened : r.closed = false)
  | draining (hf : r.front = .draining none) (closed : r.closed = true)
      (all : (got.map (·.index.toInt.toNat)).Perm (List.range plan.total))
  | closing (hf : r.front = .syncing ∨ r.front = .naming) (closed : r.closed = true)
      (all : (got.map (·.index.toInt.toNat)).Perm (List.range plan.total))
      (gone : ∀ w ∈ r.workers, w = .exited)

/-- Where a receiver of the frames of a payload may stand. -/
inductive Standing (payload : Bytes) (plan : Plan) (folder : Path) (name : String) (r : Receiver)
    (got coming : List Message.Chunk) : Prop where
  | working {put : List Piece} (intact : Intact payload plan folder name r got coming put)
      (stage : Stage plan r got)
  | done (hf : r.front = .finished (.ok plan.size)) (gone : ∀ w ∈ r.workers, w = .exited)
      (there : r.tree.get? (folder ++ [name]) = some (.file payload))

variable {payload : Bytes} {plan : Plan} {folder : Path} {name : String} {r q : Receiver}
  {got coming : List Message.Chunk} {put : List Piece} {n : Nat}

theorem reads_of_awaits (h : r.awaits = true) : r.front.reads = true := by
  simp only [Receiver.awaits, Bool.and_eq_true] at h
  cases hf : r.front with
  | reading | enqueuing => rfl
  | draining | syncing | naming | clearing | finished => simp [hf] at h

theorem Stage.unfinished (stage : Stage plan r got) (v : Except Failure Nat) :
    r.front ≠ .finished v := by
  intro hf
  cases stage with
  | reading reads =>
    rw [hf] at reads
    cases reads
  | draining hf' => cases hf.symm.trans hf'
  | closing hf' => rcases hf' with hf' | hf' <;> cases hf.symm.trans hf'

/-! ## Pieces on their way -/

section Accounts

variable {kept kept' taken taken' : List Piece}

theorem accounted_of_idle {c : Crew Piece Errand} (accounted : (r.pending ++ kept).Perm taken)
    (m : r.toCrew.IdleMove .taken n c) : (({ r with toCrew := c } : Receiver).pending ++ kept).Perm
      taken := by
  have same : ({ r with toCrew := c } : Receiver).pending.Perm r.pending :=
    (m.pending_perm fun _ => rfl).append_left _
  exact (same.append_right kept).trans accounted

/-- With a writer elsewhere, the pieces under way and those put aside are the same as before. -/
theorem accounted_of_moved {v w : Hand Errand} (accounted : (r.pending ++ kept).Perm taken)
    (hw : r.workers[n]? = some v)
    (same : ∀ measure : Piece → Nat,
      sumOver measure (w.inHand Errand.inHand) + sumOver measure kept' =
        sumOver measure (v.inHand Errand.inHand) + sumOver measure kept) :
    ((r.setWriter n w).pending ++ kept').Perm taken := by
  apply perm_iff_sumOver.2
  intro measure
  have before := perm_iff_sumOver.1 accounted measure
  have here := same measure
  have there := Crew.sumOver_setWorker (f := Errand.inHand) (w := w) measure hw
  simp only [Receiver.pending, Receiver.setWriter, Crew.pending, sumOver_append,
    Crew.queue_setWorker] at before ⊢
  omega

/-- With the front elsewhere, the pieces under way and those put aside are those taken by now. -/
theorem accounted_of_turned {front : Front} (queue : List Piece)
    (accounted : (r.pending ++ kept).Perm taken)
    (same : ∀ measure : Piece → Nat,
      sumOver measure front.inHand + sumOver measure queue + sumOver measure taken =
        sumOver measure r.front.inHand + sumOver measure r.queue + sumOver measure taken') :
    (({ r with front := front, queue := queue } : Receiver).pending ++ kept).Perm taken' := by
  apply perm_iff_sumOver.2
  intro measure
  have before := perm_iff_sumOver.1 accounted measure
  have here := same measure
  simp only [Receiver.pending, Crew.pending, Crew.inHand, sumOver_append] at before ⊢
  omega

end Accounts

/-! ## The beginning -/

theorem begin_eq_ok_iff {writers : Nat} {drawn dest : String} {items : List Item} {tree : Tree}
    {a : Announcement} : begin writers drawn dest items tree = .ok (a, r) ↔
      announcement items.head? = .ok a ∧ ∃ folder, tree.folder dest = .ok folder ∧
        Receiver.start a writers drawn folder items.tail tree = .ok r := by
  simp only [begin, bind_eq_ok_iff, liftM_eq_ok_iff]
  constructor
  · rintro ⟨a', ha, folder, found, r', started, h⟩
    cases h
    exact ⟨ha, folder, found, started⟩
  · rintro ⟨ha, folder, found, started⟩
    exact ⟨a, ha, folder, found, r, started, rfl⟩

/-- A receiver begins with an empty draft, under a name that was free. -/
theorem start_eq_ok_iff {a : Announcement} {writers : Nat} {drawn : String} {inbound : List Item}
    {tree : Tree} : Receiver.start a writers drawn folder inbound tree = .ok r ↔
      Crew.Fits writers ∧ tree.isFolder folder = true ∧
      tree.get? (folder ++ [temporaryName drawn]) = none ∧
      r = { plan := a.plan, folder := folder, name := a.name, temporary := temporaryName drawn
            tree := tree.set (folder ++ [temporaryName drawn]) (.draft [])
            inbound := inbound, workers := List.replicate (max writers 1) .waiting } := by
  simp only [Receiver.start, bind_eq_ok_iff, liftM_eq_ok_iff, Tree.create_eq_ok_iff]
  constructor
  · rintro ⟨_, ⟨isFolder, free, rfl⟩, h⟩
    split at h <;> cases h
    exact ⟨‹_›, isFolder, free, rfl⟩
  · rintro ⟨fits, isFolder, free, rfl⟩
    exact ⟨_, ⟨isFolder, free, rfl⟩, if_pos fits⟩

theorem fits_of_begin {writers : Nat} {drawn dest : String} {items : List Item} {tree : Tree}
    {a : Announcement} (h : begin writers drawn dest items tree = .ok (a, r)) :
    Crew.Fits writers := by
  obtain ⟨-, folder, -, started⟩ := begin_eq_ok_iff.1 h
  exact (start_eq_ok_iff.1 started).1

/-- A receiver begins in an empty folder once the metadata of a payload have come, if its writers
fit. -/
theorem exists_start {m : Metadata} {dest : String} {tree : Tree} {writers : Nat} (drawn : String)
    (payload : Bytes) (announced : Upload.Announces m plan)
    (named : Name.safe m.filename = .ok name) (fits : Crew.Fits writers)
    (found : tree.folder dest = .ok folder)
    (empty : ∀ other, tree.get? (folder ++ [other]) = none) :
    ∃ r, begin writers drawn dest [.ok (.metadata m)] tree = .ok (⟨m, plan, name⟩, r) ∧
      Standing payload plan folder name r [] [] ∧ r.weight = 2 * max writers 1 + 5 := by
  let r : Receiver := { plan := plan, folder := folder, name := name
                        temporary := temporaryName drawn
                        tree := tree.set (folder ++ [temporaryName drawn]) (.draft [])
                        inbound := [], workers := List.replicate (max writers 1) .waiting }
  have started : begin writers drawn dest [.ok (.metadata m)] tree = .ok (⟨m, plan, name⟩, r) :=
    begin_eq_ok_iff.2 ⟨announcement_eq_ok_iff.2 ⟨rfl, announced, named⟩, folder, found,
      start_eq_ok_iff.2 ⟨fits, Tree.isFolder_of_folder found, empty _, rfl⟩⟩
  have waiting : ∀ w ∈ r.workers, w = .waiting := fun _ => List.eq_of_mem_replicate
  have intact : Intact payload plan folder name r [] [] [] := {
    plan_eq := rfl
    folder_eq := rfl
    name_eq := rfl
    inbound := rfl
    cut := nofun
    nodup := List.nodup_nil
    seen := rfl
    accounted := by
      rw [Receiver.pending, Crew.pending, Crew.inHand_of_waiting waiting]
      exact .refl _
    written := rfl
    running := rfl
    content := rfl
    manned := fun h => by
      have none_there := (List.replicate_eq_nil_iff _).1 h
      omega
    loyal := .of_waiting waiting
    draft := Tree.get?_set_self _ _ (by simp)
    clear := Tree.isFolder_set_draft [] (by simp) (by rw [Tree.isFolder, empty]; rfl) }
  refine ⟨r, started, .working intact (.reading rfl rfl), ?_⟩
  simp only [Receiver.weight, Crew.weight, r, sumOver_replicate, Front.weight, Hand.weight,
    List.length_nil]
  omega

/-! ## Moves of a writer -/

section Writer

variable (intact : Intact payload plan folder name r got coming put)

include intact

/-- A writer with nothing to do leaves the receiver intact. -/
theorem Intact.idle {c : Crew Piece Errand} (m : r.toCrew.IdleMove .taken n c) :
    Intact payload plan folder name { r with toCrew := c } got coming put :=
  { intact with
    accounted := accounted_of_idle intact.accounted m
    manned := by
      rw [← List.length_pos_iff, m.length_eq, List.length_pos_iff]
      exact intact.manned
    loyal := intact.loyal.idle m }

theorem Intact.ready {p : Piece} (hw : r.workers[n]? = some (.busy (.taken p))) :
    Intact payload plan folder name (r.setWriter n (.busy (.writing p))) got coming put :=
  { intact with
    accounted := accounted_of_moved intact.accounted hw fun _ => rfl
    manned := fun h => intact.manned ((List.set_eq_nil_iff _ _).1 h)
    loyal := intact.loyal.setWorker nofun }

theorem Intact.write {p : Piece} (hw : r.workers[n]? = some (.busy (.writing p))) :
    Intact payload plan folder name
      ({ r.write p p.data.length with written := r.written + p.data.length }.setWriter n .waiting)
      got coming (put ++ [p]) :=
  { intact with
    accounted := accounted_of_moved intact.accounted hw fun measure => by
      simp only [Hand.inHand, Errand.inHand, sumOver_append, sumOver_cons, sumOver_nil]
      omega
    written := by
      show r.written + p.data.length = _
      rw [intact.written, sumOver_append, sumOver_cons, sumOver_nil]
      rfl
    manned := fun h => intact.manned ((List.set_eq_nil_iff _ _).1 h)
    loyal := intact.loyal.setWorker nofun
    draft := by
      have written := Tree.get?_writeAt_self (chunkOffset p.index r.plan.chunkSize) p.data
        (by simp [Receiver.temporaryPath]) intact.draft
      rw [writesOf, List.map_append]
      simp only [Receiver.setWriter, Receiver.write, List.take_length, intact.plan_eq] at written ⊢
      exact written
    clear := (Tree.isFolder_writeAt _ _ (by simp [Receiver.temporaryPath])).trans intact.clear }

/-- Every move of a writer that works leaves the receiver intact. -/
theorem Intact.writer (h : stepWriter n none r = some q) :
    ∃ put', Intact payload plan folder name q got coming put' ∧ q.front = r.front ∧
      q.closed = r.closed := by
  have move := writerMove_of_step h
  rw [fault?_writer] at move
  cases move with
  | idle m => exact ⟨put, intact.idle m, rfl, m.closed_eq⟩
  | drop hw ha =>
    rw [intact.running] at ha
    cases ha
  | ready hw ha => exact ⟨put, intact.ready hw, rfl, rfl⟩
  | write hw => exact ⟨_, intact.write hw, rfl, rfl⟩

end Writer

/-! ## Moves of the front -/

section Front

variable (size_eq : plan.size = payload.length) (total_le : plan.total ≤ Word.maxInt32)

/-- When the writers have left, all that was read has been written. -/
theorem Intact.all_put (intact : Intact payload plan folder name r got coming put)
    (idle : r.front.inHand = []) (gone : ∀ w ∈ r.workers, w = .exited) :
    put.Perm (got.map Upload.pieceOf) := by
  have accounted := intact.accounted
  rwa [Receiver.pending, idle, intact.loyal.pending_eq_nil intact.manned gone] at accounted

include size_eq total_le

/-- The chunks written make up the payload, once there is one for each index. -/
theorem Intact.payload_put (intact : Intact payload plan folder name r got coming put)
    (idle : r.front.inHand = []) (gone : ∀ w ∈ r.workers, w = .exited)
    (all : (got.map (·.index.toInt.toNat)).Perm (List.range plan.total)) :
    r.written = plan.size ∧ plan.fill put = payload := by
  have perm := intact.all_put idle gone
  have cuts : plan.Cuts payload put := fun t ht =>
    Sending.cuts_of_cut total_le (fun c hc => intact.cut c (List.mem_append_left _ hc)) t
      (perm.mem_iff.1 ht)
  have indices : (put.map (·.index)).Perm (List.range plan.total) := by
    refine (perm.map _).trans ?_
    rw [List.map_map]
    exact all
  exact ⟨intact.written.trans (Plan.sumOver_of_perm (cuts.fits size_eq) indices),
    Plan.fill_eq size_eq cuts indices⟩

omit size_eq total_le in
/-- The front elsewhere, with the same chunks in its hands. -/
theorem Intact.elsewhere (intact : Intact payload plan folder name r got coming put) {front : Front}
    {closed : Bool} (same : front.inHand = r.front.inHand)
    (shut : r.closed = true → closed = true) :
    Intact payload plan folder name { r with front := front, closed := closed } got coming put :=
  { intact with
    accounted := by
      have accounted := intact.accounted
      rw [Receiver.pending] at accounted ⊢
      rwa [same]
    loyal := fun gone => ⟨shut (intact.loyal gone).1, (intact.loyal gone).2⟩ }

/-- A frame that is taken brings a chunk that was not seen before. -/
theorem Intact.piece_next {c : Message.Chunk}
    (intact : Intact payload plan folder name r got (c :: coming) put) :
    piece r.plan r.seen (.ok (.chunk c)) = .ok (Upload.pieceOf c) := by
  obtain ⟨i, hi⟩ := intact.cut c (List.mem_append_right _ List.mem_cons_self)
  obtain ⟨passes, -⟩ := Sending.piece_of_cut? size_eq total_le hi
  have same := Upload.piece_eq_pieceOf passes
  rw [same] at passes
  have unseen : (Upload.pieceOf c).index ∉ r.seen := by
    have nodup := intact.nodup
    rw [List.map_append, List.map_cons] at nodup
    rw [intact.seen, List.mem_reverse]
    intro seen
    exact (List.nodup_append.1 nodup).2.2 _ seen _ List.mem_cons_self rfl
  rw [intact.plan_eq, piece, passes]
  exact if_neg unseen

theorem Intact.receive {c : Message.Chunk}
    (intact : Intact payload plan folder name r got (c :: coming) put) (hf : r.front = .reading) :
    ∃ p, stepFront none r = some { r with
        front := .enqueuing p, inbound := Upload.itemsOf coming, seen := p.index :: r.seen } ∧
      Intact payload plan folder name
        { r with
          front := .enqueuing p, inbound := Upload.itemsOf coming, seen := p.index :: r.seen }
        (got ++ [c]) coming put := by
  have passed := intact.piece_next size_eq total_le
  refine ⟨Upload.pieceOf c, ?_,
    { intact with inbound := rfl, cut := ?_, nodup := ?_, seen := ?_, accounted := ?_ }⟩
  · simp only [stepFront, hf, intact.inbound, Upload.itemsOf, List.map_cons, intact.running, passed]
    rfl
  · rw [List.append_assoc]
    exact intact.cut
  · rw [List.append_assoc]
    exact intact.nodup
  · rw [List.map_append, List.reverse_append, intact.seen]
    rfl
  · refine accounted_of_turned r.queue intact.accounted fun measure => ?_
    simp only [hf, Front.inHand, List.map_append, List.map_cons, List.map_nil, sumOver_append,
      sumOver_cons, sumOver_nil]
    omega

omit size_eq total_le in
theorem Intact.enqueue {p : Piece} (intact : Intact payload plan folder name r got coming put)
    (hf : r.front = .enqueuing p) (opened : r.closed = false) :
    Intact payload plan folder name { r with front := .reading, queue := r.queue ++ [p] } got coming
      put :=
  { intact with
    accounted := accounted_of_turned (r.queue ++ [p]) intact.accounted fun measure => by
      simp only [hf, Front.inHand, sumOver_append, sumOver_cons, sumOver_nil]
      omega
    loyal := intact.loyal.put opened p }

/-- A front that takes frames goes on with the next, or waits for the writers once all have come. -/
theorem Intact.read_on (intact : Intact payload plan folder name r got coming put)
    (reads : r.front.reads = true) (opened : r.closed = false)
    (ready : r.awaits = true → (got.map (·.index.toInt.toNat)).Perm (List.range plan.total))
    (h : stepFront none r = some q) :
    ∃ got' coming', got' ++ coming' = got ++ coming ∧
      Standing payload plan folder name q got' coming' := by
  cases hf : r.front with
  | reading =>
    have inbound := intact.inbound
    cases coming with
    | nil =>
      have all := ready (by simp [Receiver.awaits, hf, inbound, Upload.itemsOf])
      have h' : stepFront none r = some (r.close none) := by
        simp only [stepFront, hf, inbound, Upload.itemsOf, List.map_nil]
      cases h.symm.trans h'
      exact ⟨got, [], rfl, .working (intact.elsewhere (by rw [hf]; rfl) fun _ => rfl)
        (.draining rfl rfl all)⟩
    | cons c coming =>
      obtain ⟨p, h', intact'⟩ := intact.receive size_eq total_le hf
      cases h.symm.trans h'
      exact ⟨got ++ [c], coming, by simp, .working intact' (.reading rfl opened)⟩
  | enqueuing p =>
    simp only [stepFront, hf] at h
    split at h <;> cases h
    exact ⟨got, coming, rfl, .working (intact.enqueue hf opened) (.reading rfl opened)⟩
  | draining | syncing | naming | clearing | finished =>
    rw [hf] at reads
    cases reads

omit size_eq total_le in
theorem Intact.judge (intact : Intact payload plan folder name r got coming put)
    (hf : r.front = .draining none) (closed : r.closed = true)
    (all : (got.map (·.index.toInt.toNat)).Perm (List.range plan.total))
    (h : stepFront none r = some q) : Standing payload plan folder name q got coming := by
  simp only [stepFront, hf] at h
  split at h
  · rename_i gone
    have content : (none : Option Failure).or r.failure = none := by rw [intact.content]; rfl
    have count : r.seen.length = r.plan.total := by
      rw [intact.seen, List.length_reverse, all.length_eq, List.length_range, intact.plan_eq]
    rw [content] at h
    simp only [if_pos count] at h
    cases h
    exact .working (intact.elsewhere (by rw [hf]; rfl) id)
      (.closing (.inl rfl) closed all (Crew.deserted_iff.1 gone))
  · cases h

theorem Intact.conclude (intact : Intact payload plan folder name r got coming put)
    (named : isEntryName name = true) (hf : r.front = .syncing ∨ r.front = .naming)
    (closed : r.closed = true)
    (all : (got.map (·.index.toInt.toNat)).Perm (List.range plan.total))
    (gone : ∀ w ∈ r.workers, w = .exited) (h : stepFront none r = some q) :
    Standing payload plan folder name q got coming := by
  have idle : r.front.inHand = [] := by rcases hf with hf | hf <;> rw [hf] <;> rfl
  obtain ⟨written, filled⟩ := intact.payload_put size_eq total_le idle gone all
  rcases hf with hf | hf
  · have count : r.written = r.plan.size := by rw [written, intact.plan_eq]
    simp only [stepFront, hf, if_pos count] at h
    cases h
    exact .working (intact.elsewhere idle.symm id) (.closing (.inr rfl) closed all gone)
  · have drafted := intact.draft
    rw [Receiver.temporaryPath, intact.folder_eq] at drafted
    have renamed := Tree.rename_eq_ok named intact.clear drafted
    simp only [stepFront, hf, intact.folder_eq, intact.name_eq, renamed] at h
    cases h
    refine .done (by rw [written]) gone ?_
    rw [Tree.get?_set_self _ _ (by simp), settled_writesOf, filled]

/-- Every move of the front that works keeps the receiver where it should be. -/
theorem Standing.front (standing : Standing payload plan folder name r got coming)
    (named : isEntryName name = true)
    (ready : r.awaits = true → (got.map (·.index.toInt.toNat)).Perm (List.range plan.total))
    (h : stepFront none r = some q) :
    ∃ got' coming', got' ++ coming' = got ++ coming ∧
      Standing payload plan folder name q got' coming' := by
  cases standing with
  | done hf => simp [stepFront, hf] at h
  | working intact stage =>
    cases stage with
    | reading reads opened => exact intact.read_on size_eq total_le reads opened ready h
    | draining hf closed all => exact ⟨got, coming, rfl, intact.judge hf closed all h⟩
    | closing hf closed all gone =>
      exact ⟨got, coming, rfl, intact.conclude size_eq total_le named hf closed all gone h⟩

omit size_eq total_le in
/-- Every move of a writer that works keeps the receiver where it should be. -/
theorem Standing.writer (standing : Standing payload plan folder name r got coming)
    (h : stepWriter n none r = some q) : Standing payload plan folder name q got coming := by
  have present : ¬∀ w ∈ r.workers, w = .exited := (writerMove_of_step h).present.not_gone
  cases standing with
  | done hf gone => exact absurd gone present
  | working intact stage =>
    cases stage with
    | reading reads opened =>
      obtain ⟨put', intact', front_eq, closed_eq⟩ := intact.writer h
      exact .working intact' (.reading (front_eq ▸ reads) (closed_eq ▸ opened))
    | draining hf closed all =>
      obtain ⟨put', intact', front_eq, closed_eq⟩ := intact.writer h
      exact .working intact' (.draining (front_eq ▸ hf) (closed_eq ▸ closed) all)
    | closing hf closed all gone => exact absurd gone present

/-- Every move that works keeps a receiver where it should be. -/
theorem Standing.step {m : Move} (standing : Standing payload plan folder name r got coming)
    (named : isEntryName name = true) (works : m.works = true)
    (ready : m.isFront = true → r.awaits = true →
      (got.map (·.index.toInt.toNat)).Perm (List.range plan.total))
    (h : Receiving.step m r = some q) :
    ∃ got' coming', got' ++ coming' = got ++ coming ∧
      Standing payload plan folder name q got' coming' := by
  cases m with
  | front fault =>
    cases fault with
    | none => exact standing.front size_eq total_le named (ready rfl) h
    | some f => cases works
  | writer n fault =>
    cases fault with
    | none => exact ⟨got, coming, rfl, standing.writer h⟩
    | some f => cases works

end Front

/-! ## What comes across -/

/-- A receiver that waits for a frame has read all that has come. -/
theorem Standing.coming_nil (standing : Standing payload plan folder name r got coming)
    (waits : r.awaits = true) : coming = [] := by
  cases standing with
  | done hf => simp [Receiver.awaits, hf] at waits
  | working intact =>
    simp only [Receiver.awaits, Bool.and_eq_true, List.isEmpty_iff] at waits
    exact List.map_eq_nil_iff.1 (intact.inbound.symm.trans waits.1)

/-- One more item that has come makes at most seven more moves. -/
theorem weight_deliver (r : Receiver) (item : Item) :
    ({ r with inbound := r.inbound ++ [item] } : Receiver).weight ≤ r.weight + 7 := by
  simp only [Receiver.weight, List.length_append, List.length_singleton]
  cases r.front <;> simp only [Front.weight] <;> omega

theorem Standing.deliver {c : Message.Chunk}
    (standing : Standing payload plan folder name r got coming)
    (cut : ∃ i, Sending.cut? payload plan i = some c)
    (nodup : ((got ++ (coming ++ [c])).map (·.index.toInt.toNat)).Nodup) :
    Standing payload plan folder name { r with inbound := r.inbound ++ [.ok (.chunk c)] } got
      (coming ++ [c]) := by
  cases standing with
  | done hf gone there => exact .done hf gone there
  | @working put intact stage =>
    have intact' : Intact payload plan folder name
        { r with inbound := r.inbound ++ [.ok (.chunk c)] } got (coming ++ [c]) put :=
      { intact with
        inbound := by
          rw [intact.inbound, Upload.itemsOf, Upload.itemsOf, List.map_append]
          rfl
        cut := fun c' hc' => by
          rw [← List.append_assoc] at hc'
          rcases List.mem_append.1 hc' with old | new
          · exact intact.cut c' old
          · cases List.mem_singleton.1 new
            exact cut
        nodup := nodup }
    refine .working intact' ?_
    cases stage with
    | reading hf opened => exact .reading hf opened
    | draining hf closed all => exact .draining hf closed all
    | closing hf closed all gone => exact .closing hf closed all gone

/-! ## Progress -/

/-- A front that has waited for a frame can move when the stream ends. -/
theorem step_of_awaits (waits : r.awaits = true) :
    Receiving.step (.front none) r = some (r.close none) := by
  simp only [Receiver.awaits, Bool.and_eq_true, List.isEmpty_iff] at waits
  cases hf : r.front with
  | reading => simp only [Receiving.step, stepFront, hf, waits.1]
  | enqueuing | draining | syncing | naming | clearing | finished => simp [hf] at waits

/-- Until it has an answer, a receiver has a move that works. -/
theorem Standing.moves (standing : Standing payload plan folder name r got coming)
    (unfinished : ∀ v, r.front ≠ .finished v) :
    ∃ m q, m.works = true ∧ Receiving.step m r = some q := by
  cases standing with
  | done hf => exact absurd hf (unfinished _)
  | working intact stage =>
    refine exists_move intact.manned intact.loyal ?_ unfinished
    intro failure hd
    cases stage with
    | reading hf => simp [hd, Front.reads] at hf
    | draining hf closed | closing hf closed => exact closed

end Strongbox.Receiving
