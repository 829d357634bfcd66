import Strongbox.Proofs.Upload.Working

/-!
# What holds of an upload at every moment
-/

namespace Strongbox.Upload

open Message Ledger

/-- The stream is an offer and then exactly the chunks of its plan, in some order: these pieces. -/
structure Passed (items : List Item) (o : Offer) (ps : List Piece) : Prop where
  offered : offer items.head? = .ok o
  read : items.tail.map (piece o.plan) = ps.map .ok
  all : (ps.map (·.index)).Perm (List.range o.plan.total)

/-- Frames that bring pieces of a plan bring pieces that fit. -/
theorem fits_of_read {plan : Plan} {read : List Item} {ps : List Piece}
    (h : read.map (piece plan) = ps.map .ok) : ∀ t ∈ ps, plan.Fits t := by
  intro t ht
  have : Except.ok t ∈ read.map (piece plan) := h ▸ List.mem_map_of_mem ht
  obtain ⟨item, _, hitem⟩ := List.mem_map.1 this
  obtain ⟨c, _, hc⟩ := piece_eq_ok_iff.1 hitem
  exact (Plan.piece_eq_ok_iff.1 hc).2.2

/-- The pieces of a whole stream are together as long as the file. -/
theorem Passed.size_eq {items : List Item} {o : Offer} {ps : List Piece}
    (h : Passed items o ps) : sumOver (·.data.length) ps = o.plan.size :=
  Plan.sumOver_of_perm (fits_of_read h.read) h.all

section Taken

variable {σ : Type} [Ledger σ] {key : Key} {owner file : Int} {items : List Item} {o : Offer}
  {s : σ} {p : Pipeline} {h : History} (work : Working key owner items o file s p h)

include work

theorem Working.fits_taken : ∀ t ∈ h.taken, o.plan.Fits t := by
  obtain ⟨read, skipped, -, hread, -⟩ := work.stream
  exact fits_of_read hread

theorem Working.fits_pending : ∀ t ∈ p.pending, o.plan.Fits t := fun t ht =>
  work.fits_taken t (work.accounted.mem_iff.1 (List.mem_append_left _ (List.mem_append_left _ ht)))

theorem Working.fits_saved : ∀ t ∈ h.saved, o.plan.Fits t := fun t ht =>
  work.fits_taken t (work.accounted.mem_iff.1 (List.mem_append_left _ (List.mem_append_right _ ht)))

end Taken

/-- Only the front may still move. -/
structure Still (p : Pipeline) : Prop where
  gone : ∀ w ∈ p.workers, w = .exited
  told : p.results = []
  rested : p.drained = true ∨ p.closed = false

theorem Still.no_worker {τ : Type} [Store τ] {key : Key} {n : Nat} {iv : Option Nonce} {s t : τ}
    {p q : Pipeline} (still : Still p)
    (m : WorkerMove key n iv s p t q) : False :=
  m.present.not_gone still.gone

theorem Still.no_accumulator {p q : Pipeline} (still : Still p) (m : AccumulatorMove p q) :
    False := by
  cases m with
  | add hr | pass hr | stop hr => simp [still.told] at hr
  | leave hr hc gone hd => rcases still.rested with h | h <;> grind

/-- No worker has begun. -/
structure Fresh (p : Pipeline) : Prop where
  workers : p.workers = []
  queue : p.queue = []
  results : p.results = []
  opened : p.closed = false
  tally : p.tally = 0
  content : p.failed = false
  slot : p.slot = none
  running : p.aborted = false
  received : p.received = 0
  waiting : p.drained = false
  crew_pos : 0 < p.crew

theorem Fresh.still {p : Pipeline} (h : Fresh p) : Still p :=
  ⟨by simp [h.workers], h.results, .inr h.opened⟩

/-- The file that an upload has made, unless it has removed it. -/
def Front.charge? : Front → Option Int
  | finished (.ok v) => some v.file
  | front => front.file?

theorem charge?_of_file? {front : Front} {file : Int} (h : front.file? = some file) :
    front.charge? = some file := by
  cases front <;> first | exact h | cases h

variable {σ : Type} [Ledger σ]

/-- Where an upload may stand, with what it has stored. -/
inductive Inv (key : Key) (owner : Int) (items : List Item) (s : σ) (p : Pipeline) : Prop where
  | opening (hf : p.front = .opening) (fresh : Fresh p) (hi : p.inbound = items)
  | creating {o : Offer} (hf : p.front = .creating o) (fresh : Fresh p)
      (hi : p.inbound = items.tail) (ho : offer items.head? = .ok o)
  | working {o : Offer} {file : Int} {h : History} (work : Working key owner items o file s p h)
  | completing {o : Offer} {file : Int} {ps : List Piece}
      (hf : p.front = .completing ⟨file, o.plan⟩) (still : Still p) (passed : Passed items o ps)
      (held : Held key owner o file false s ps)
      (tally : p.tally = o.plan.size)
  | purging {o : Offer} {file : Int} {f : Failure} {ps : List Piece}
      (hf : p.front = .purging ⟨file, o.plan⟩ f) (still : Still p)
      (offered : offer items.head? = .ok o) (fits : ∀ t ∈ ps, o.plan.Fits t)
      (held : Held key owner o file false s ps)
  | done {o : Offer} {v : Summary} {ps : List Piece} (hf : p.front = .finished (.ok v))
      (still : Still p) (passed : Passed items o ps) (held : Held key owner o v.file true s ps)
      (bytes : v.bytesReceived = o.plan.size)
  | failed {f : Failure} (hf : p.front = .finished (.error f)) (still : Still p)

/-- The store is sound, and has changed in the file of the upload and in new files only. -/
structure Framed (p : Pipeline) (s t : σ) : Prop where
  sound : Sound t
  last_le : last s ≤ last t
  record_eq : ∀ g, g ≤ last s → p.front.file? ≠ some g → record? t g = record? s g
  rows_eq : ∀ g, g ≤ last s → p.front.file? ≠ some g → rows t g = rows s g

variable {key : Key} {owner file : Int} {items : List Item} {o : Offer} {s t : σ}
  {p q : Pipeline} {h : History} {now : Moment}

theorem Framed.refl (sound : Sound s) : Framed p s s :=
  ⟨sound, Int.le_refl _, fun _ _ _ => rfl, fun _ _ _ => rfl⟩

theorem Framed.of_changes (changes : Changes file s t) (hf : p.front.file? = some file) :
    Framed p s t where
  sound := changes.sound
  last_le := Int.le_of_eq changes.last_eq.symm
  record_eq g _ hg := changes.record_eq g fun e => hg (e ▸ hf)
  rows_eq g _ hg := changes.rows_eq g fun e => hg (e ▸ hf)

/-! ## When all others have left -/

theorem Working.read_all (work : Working key owner items o file s p h)
    (hf : p.front = .draining ⟨file, o.plan⟩ none) :
    items.tail.map (piece o.plan) = h.taken.map .ok := by
  obtain ⟨read, skipped, htail, hread, hskip⟩ := work.stream
  have hskip : skipped = [] := by simpa [hf, Front.failure?] using hskip
  rw [htail, hskip, work.ended _ hf, List.append_nil, List.append_nil, hread]

theorem Working.pending_nil (work : Working key owner items o file s p h)
    (gone : p.deserted = true) {failure : Option Failure}
    (hf : p.front = .draining ⟨file, o.plan⟩ failure) : p.pending = [] := by
  have manned : p.workers ≠ [] := by
    rw [← List.length_pos_iff, work.crew_eq]
    exact work.crew_pos
  rw [Pipeline.pending, work.loyal.pending_eq_nil manned (Crew.deserted_iff.1 gone), hf]
  rfl

section Settled

variable (work : Working key owner items o file s p h) (gone : p.deserted = true)
  (hd : p.drained = true)

include work gone hd

theorem Working.still : Still p :=
  ⟨Crew.deserted_iff.1 gone, (work.drained hd).2, .inl hd⟩

theorem Working.reports_nil : p.reports = [] := by
  rw [Pipeline.reports, (work.drained hd).2, Crew.inHand_of_gone (Crew.deserted_iff.1 gone),
    List.append_nil]

/-- An upload that no failure has been told of has stored all it has taken. -/
theorem Working.healthy (hf : p.front = .draining ⟨file, o.plan⟩ none) (hs : p.slot = none) :
    Healthy p h := by
  rcases work.fate with healthy | doomed
  · exact healthy
  · cases doomed with
    | front hfail => simp [hf, Front.failure?] at hfail
    | slot hslot => simp [hs] at hslot
    | report content faulty =>
      simp [Pipeline.faults, work.reports_nil gone hd] at faulty

theorem Working.saved_perm (hf : p.front = .draining ⟨file, o.plan⟩ none) (hs : p.slot = none) :
    h.saved.Perm h.taken := by
  have := work.accounted
  rwa [work.pending_nil gone hf, (work.healthy gone hd hf hs).lost, List.nil_append,
    List.append_nil] at this

theorem Working.tally_eq (hf : p.front = .draining ⟨file, o.plan⟩ none) (hs : p.slot = none) :
    p.tally = sumOver (·.data.length) h.saved := by
  have := (work.healthy gone hd hf hs).tally
  rwa [work.reports_nil gone hd] at this

theorem Working.taken_nodup [Store σ] [LawfulStore σ] (sound : Sound s)
    (hf : p.front = .draining ⟨file, o.plan⟩ none) (hs : p.slot = none) :
    (h.taken.map (·.index)).Nodup :=
  ((work.saved_perm gone hd hf hs).map _).nodup_iff.1 (work.held.nodup sound)

/-- An upload that has taken as many chunks as it should, and was told of no failure, has taken
exactly those of its plan. -/
theorem Working.passed [Store σ] [LawfulStore σ] (sound : Sound s)
    (hf : p.front = .draining ⟨file, o.plan⟩ none) (hs : p.slot = none)
    (hr : p.received = o.plan.total) : Passed items o h.taken where
  offered := work.offered
  read := work.read_all hf
  all := by
    have fits := fits_of_read (work.read_all hf)
    refine perm_range (work.taken_nodup gone hd sound hf hs) (fun i hi => ?_) ?_
    · obtain ⟨t, ht, rfl⟩ := List.mem_map.1 hi
      exact (fits t ht).lt_total
    · rw [List.length_map, ← work.received, hr]

end Settled

/-! ## Where an upload stands, by its front -/

section Stands

variable (inv : Inv key owner items s p)

include inv

theorem Inv.of_opening (hf : p.front = .opening) : Fresh p ∧ p.inbound = items := by
  cases inv with
  | opening _ fresh hi => exact ⟨fresh, hi⟩
  | working work => simpa [hf, Front.working?] using work.at_work
  | creating hf' | completing hf' | purging hf' | done hf' | failed hf' => simp [hf] at hf'

theorem Inv.of_creating {o : Offer} (hf : p.front = .creating o) :
    Fresh p ∧ p.inbound = items.tail ∧ offer items.head? = .ok o := by
  cases inv with
  | creating hf' fresh hi ho =>
    cases hf.symm.trans hf'
    exact ⟨fresh, hi, ho⟩
  | working work => simpa [hf, Front.working?] using work.at_work
  | opening hf' | completing hf' | purging hf' | done hf' | failed hf' => simp [hf] at hf'

theorem Inv.of_working {job : Job} (hf : p.front.working? = some job) :
    ∃ file o h, job = ⟨file, o.plan⟩ ∧ Working key owner items o file s p h := by
  cases inv with
  | working work =>
    cases hf.symm.trans work.at_work
    exact ⟨_, _, _, rfl, work⟩
  | opening hf' | creating hf' | completing hf' | purging hf' | done hf' | failed hf' =>
    simp [hf', Front.working?] at hf

theorem Inv.of_completing {job : Job} (hf : p.front = .completing job) :
    ∃ file o ps, job = ⟨file, o.plan⟩ ∧ Still p ∧ Passed items o ps ∧
      Held key owner o file false s ps ∧ p.tally = o.plan.size := by
  cases inv with
  | completing hf' still passed held tally =>
    cases hf.symm.trans hf'
    exact ⟨_, _, _, rfl, still, passed, held, tally⟩
  | working work => simpa [hf, Front.working?] using work.at_work
  | opening hf' | creating hf' | purging hf' | done hf' | failed hf' => simp [hf] at hf'

/-- The size of a file that is about to be complete fits a signed word. -/
theorem Inv.tally_le {job : Job} (hf : p.front = .completing job) :
    p.tally ≤ Word.maxInt64 := by
  obtain ⟨file, o, ps, rfl, still, passed, held, tally⟩ := inv.of_completing hf
  rw [tally]
  exact (isSound_of_offer passed.offered).size_le

theorem Inv.of_purging {job : Job} {f : Failure} (hf : p.front = .purging job f) :
    Still p ∧ ∃ r, record? s job.file = some r := by
  cases inv with
  | purging hf' still offered fits held =>
    cases hf.symm.trans hf'
    obtain ⟨r, hr, -⟩ := held.record
    exact ⟨still, r, hr⟩
  | working work => simpa [hf, Front.working?] using work.at_work
  | opening hf' | creating hf' | completing hf' | done hf' | failed hf' => simp [hf] at hf'

end Stands

/-- What leaves the file of an upload alone leaves the upload where it is. -/
theorem Inv.spared (inv : Inv key owner items s p)
    (spared : ∀ file, p.front.charge? = some file → Spared file s t) : Inv key owner items t p := by
  cases inv with
  | opening hf fresh hi => exact .opening hf fresh hi
  | creating hf fresh hi ho => exact .creating hf fresh hi ho
  | working work =>
    have hfile := file?_of_working? work.at_work
    have held := work.held.spared (spared _ (charge?_of_file? hfile))
    exact .working { work with held := held }
  | completing hf still passed held tally =>
    exact .completing hf still passed (held.spared (spared _ (by rw [hf]; rfl))) tally
  | purging hf still offered fits held =>
    exact .purging hf still offered fits (held.spared (spared _ (by rw [hf]; rfl)))
  | done hf still passed held bytes =>
    exact .done hf still passed (held.spared (spared _ (by rw [hf]; rfl))) bytes
  | failed hf still => exact .failed hf still

/-! ## Every move keeps the invariant -/

theorem Inv.start (key : Key) (owner : Int) (workers : Nat) (items : List Item) (s : σ) :
    Inv key owner items s (.start workers items) :=
  .opening rfl ⟨rfl, rfl, rfl, rfl, rfl, rfl, rfl, rfl, rfl, rfl, Nat.le_max_right _ _⟩ rfl

theorem Inv.accumulator (inv : Inv key owner items s p) (m : AccumulatorMove p q) :
    Inv key owner items s q := by
  cases inv with
  | opening hf fresh hi => exact (fresh.still.no_accumulator m).elim
  | creating hf fresh hi ho => exact (fresh.still.no_accumulator m).elim
  | working work => exact .working (work.accumulator m)
  | completing hf still passed held tally => exact (still.no_accumulator m).elim
  | purging hf still => exact (still.no_accumulator m).elim
  | done hf still passed held bytes => exact (still.no_accumulator m).elim
  | failed hf still => exact (still.no_accumulator m).elim

variable [Store σ] [LawfulStore σ]

theorem Inv.worker {n : Nat} {iv : Option Nonce} (inv : Inv key owner items s p) (sound : Sound s)
    (m : WorkerMove key n iv s p t q) : Framed p s t ∧ Inv key owner items t q := by
  cases inv with
  | opening hf fresh hi => exact (fresh.still.no_worker m).elim
  | creating hf fresh hi ho => exact (fresh.still.no_worker m).elim
  | working work =>
    obtain ⟨changes, -, h', work'⟩ := work.worker sound m
    exact ⟨.of_changes changes (file?_of_working? work.at_work), .working work'⟩
  | completing hf still passed held tally => exact (still.no_worker m).elim
  | purging hf still => exact (still.no_worker m).elim
  | done hf still passed held bytes => exact (still.no_worker m).elim
  | failed hf still => exact (still.no_worker m).elim

theorem Working.create {file : Int} (sound : Sound s) (fresh : Fresh p)
    (hi : p.inbound = items.tail) (ho : offer items.head? = .ok o)
    (hs : Store.create s now owner o.draft = .ok (file, t)) :
    Framed p s t ∧ Working key owner items o file t
      { p with
        front := .receiving ⟨file, o.plan⟩, phase := .receivingChunks,
        workers := List.replicate p.crew .waiting }
      ⟨[], [], []⟩ := by
  have outcome := LawfulStore.create now owner o.draft sound
  rw [hs] at outcome
  cases outcome with
  | @done r t isNew tells sound' last_eq record_eq rows_eq =>
    have numbers := isSound_of_offer ho
    have fresh_file : ∀ g, g ≤ last s → g ≠ last s + 1 := fun g hg => by omega
    refine ⟨⟨sound', by omega, fun g hg _ => ?_, fun g hg _ => rows_eq g⟩, ?_⟩
    · rw [record_eq, if_neg (fresh_file g hg)]
    have missing := LawfulStore.record?_of_last_lt sound (Int.lt_succ (last s))
    have declares : Declares σ r owner o :=
      ⟨isNew.owner_eq, isNew.chunkSize_eq.trans numbers.chunkSize_eq,
        isNew.totalChunks_eq.trans numbers.totalChunks_eq,
        (isNew.originalSize_eq (numbers.originalSize_eq ▸ numbers.size_le)).trans
          numbers.originalSize_eq, tells⟩
    have waiting : ∀ w ∈ List.replicate p.crew (Hand.waiting : Hand Errand), w = .waiting :=
      fun _ => List.eq_of_mem_replicate
    have idle {β : Type} (f : Errand → List β) (queue : List Piece) :
        Crew.inHand f ⟨List.replicate p.crew .waiting, queue, p.closed⟩ = [] :=
      Crew.inHand_of_waiting waiting
    constructor
    case offered => exact ho
    case at_work => rfl
    case held =>
      refine ⟨⟨r, by rw [record_eq, if_pos rfl], declares, isNew.incomplete⟩, ?_⟩
      rw [rows_eq, LawfulStore.rows_of_missing sound missing]
      exact .nil
    case accounted => simp [Pipeline.pending, Front.inHand, Crew.pending, fresh.queue, idle]
    case received => exact fresh.received
    case stream => exact ⟨[], [], by simp [hi], rfl, .inl rfl⟩
    case ended =>
      intro job hjob
      cases hjob
    case crew_eq => exact List.length_replicate
    case crew_pos => exact fresh.crew_pos
    case closed_iff => simp [fresh.opened]
    case loyal => exact .of_waiting waiting
    case drained => simp [fresh.waiting]
    case fate =>
      refine .inl ⟨fresh.running, fresh.content, fresh.slot, rfl, ?_, rfl, ?_⟩
      · simp [Pipeline.faults, Pipeline.reports, fresh.results, idle]
      · simp [Pipeline.reports, fresh.results, fresh.tally, idle]

theorem Inv.completing_outcome (inv : Inv key owner items s p) (sound : Sound s) {job : Job}
    (hf : p.front = .completing job) :
    Store.Completing s job.file p.tally (Store.complete s job.file p.tally) :=
  LawfulStore.complete job.file sound (inv.tally_le hf)

/-- An upload that has taken all its chunks, and was told of no failure, has them in the store. -/
theorem Working.pass {file : Int} (work : Working key owner items o file s p h) (sound : Sound s)
    (hf : p.front = .draining ⟨file, o.plan⟩ none) (gone : p.deserted = true)
    (hd : p.drained = true) (hs : p.slot = none) (hr : p.received = o.plan.total) :
    Inv key owner items s { p with front := .completing ⟨file, o.plan⟩, phase := .finalizing } := by
  have passed := work.passed gone hd sound hf hs hr
  have perm := work.saved_perm gone hd hf hs
  refine .completing rfl { work.still gone hd with } passed (work.held.perm perm) ?_
  rw [← passed.size_eq, ← sumOver_perm perm]
  exact work.tally_eq gone hd hf hs

theorem Inv.complete (inv : Inv key owner items s p) (sound : Sound s) {job : Job}
    (hf : p.front = .completing job) (hs : Store.complete s job.file p.tally = .ok t) :
    Framed p s t ∧ Inv key owner items t
      { p with front := .finished (.ok ⟨job.file, p.tally⟩), phase := .complete } := by
  have outcome := inv.completing_outcome sound hf
  obtain ⟨file, o, ps, rfl, still, passed, held, tally⟩ := inv.of_completing hf
  rw [hs] at outcome
  cases outcome with
  | done live filled changes record_eq rows_eq =>
    obtain ⟨r, hr, declares, -⟩ := held.record
    cases hr.symm.trans (Ledger.live?_eq_some_iff.1 live).1
    refine ⟨.of_changes changes (by rw [hf]; rfl), .done rfl { still with } passed ⟨?_, ?_⟩ tally⟩
    · exact ⟨_, record_eq, { declares with
        originalSize_eq := tally
        tells := fun keeps => { declares.tells keeps with } }, rfl⟩
    · rw [rows_eq]
      exact held.rows

theorem Inv.purge (inv : Inv key owner items s p) (sound : Sound s) {job : Job} {f : Failure}
    (hf : p.front = .purging job f) (hs : Store.purge s job.file = .ok t) :
    Framed p s t ∧ Inv key owner items t { p with front := .finished (.error f) } := by
  obtain ⟨still, -⟩ := inv.of_purging hf
  have outcome := LawfulStore.purge job.file sound
  rw [hs] at outcome
  cases outcome with
  | done changes => exact ⟨.of_changes changes (by rw [hf]; rfl), .failed rfl { still with }⟩

theorem Inv.front (inv : Inv key owner items s p) (sound : Sound s)
    (m : FrontMove owner now s p t q) : Framed p s t ∧ Inv key owner items t q := by
  cases m with
  | accept hf ho =>
    obtain ⟨fresh, hi⟩ := inv.of_opening hf
    exact ⟨.refl sound, .creating rfl { fresh with } (by rw [← hi]) (hi ▸ ho)⟩
  | refuse hf ho =>
    obtain ⟨fresh, -⟩ := inv.of_opening hf
    exact ⟨.refl sound, .failed rfl { fresh.still with }⟩
  | create hf hs =>
    obtain ⟨fresh, hi, ho⟩ := inv.of_creating hf
    obtain ⟨framed, work⟩ := Working.create sound fresh hi ho hs
    exact ⟨framed, .working work⟩
  | miss hf hs =>
    obtain ⟨fresh, -⟩ := inv.of_creating hf
    exact ⟨.refl sound, .failed rfl { fresh.still with }⟩
  | heed hf hs =>
    obtain ⟨file, o, h, rfl, work⟩ := inv.of_working (by rw [hf]; rfl)
    obtain ⟨read, skipped, htail, hread, -⟩ := work.stream
    exact ⟨.refl sound, .working (work.close hf ⟨read, skipped, htail, hread, .inr rfl⟩ nofun)⟩
  | rest hf hs hi =>
    obtain ⟨file, o, h, rfl, work⟩ := inv.of_working (by rw [hf]; rfl)
    refine ⟨.refl sound, .working (work.close hf ?_ fun _ => ⟨hi, rfl⟩)⟩
    simpa [hf, Front.failure?] using work.stream
  | receive hf hs hi ht =>
    obtain ⟨file, o, h, rfl, work⟩ := inv.of_working (by rw [hf]; rfl)
    exact ⟨.refl sound, .working (work.receive hf hi ht)⟩
  | reject hf hs hi ht =>
    obtain ⟨file, o, h, rfl, work⟩ := inv.of_working (by rw [hf]; rfl)
    exact ⟨.refl sound, .working (work.reject hf hi)⟩
  | enqueue hf room =>
    obtain ⟨file, o, h, rfl, work⟩ := inv.of_working (by rw [hf]; rfl)
    exact ⟨.refl sound, .working (work.enqueue hf)⟩
  | doom hf gone hd | lack hf gone hd =>
    obtain ⟨file, o, h, rfl, work⟩ := inv.of_working (by rw [hf]; rfl)
    exact ⟨.refl sound,
      .purging rfl { work.still gone hd with } work.offered work.fits_saved work.held⟩
  | pass hf gone hd hs hr =>
    obtain ⟨file, o, h, rfl, work⟩ := inv.of_working (by rw [hf]; rfl)
    exact ⟨.refl sound, work.pass sound hf gone hd hs hr⟩
  | complete hf hs => exact inv.complete sound hf hs
  | spoil hf hs =>
    obtain ⟨file, o, ps, rfl, still, passed, held, tally⟩ := inv.of_completing hf
    have fits := fits_of_read passed.read
    exact ⟨.refl sound, .purging rfl { still with } passed.offered fits held⟩
  | purge hf hs => exact inv.purge sound hf hs
  | leave hf hs =>
    obtain ⟨still, -⟩ := inv.of_purging hf
    exact ⟨.refl sound, .failed rfl { still with }⟩

/-- Every move keeps the invariant, and changes only the file of the upload or a new one. -/
theorem Inv.step {m : Move} (inv : Inv key owner items s p) (sound : Sound s)
    (h : step key owner now m s p = some (t, q)) : Framed p s t ∧ Inv key owner items t q := by
  cases m with
  | front => exact inv.front sound (stepFront_eq_some_iff.1 h)
  | worker n iv => exact inv.worker sound (stepWorker_eq_some_iff.1 h)
  | accumulator =>
    obtain ⟨r, hr, heq⟩ := Option.map_eq_some_iff.1 h
    cases heq
    exact ⟨.refl sound, inv.accumulator (stepAccumulator_eq_some_iff.1 hr)⟩

end Strongbox.Upload
