import Strongbox.Proofs.Upload.Held

/-!
# An upload at work

Where the chunks are that an upload has taken off its stream: in the queue or with someone, in the
store, or given up. Chunks are given up only by an upload that is bound to fail.
-/

namespace Strongbox.Upload

open Message Ledger

/-! ## Chunks and reports under way -/

def Front.inHand : Front → List Piece
  | enqueuing _ t => [t]
  | _ => []

/-- The file under way, while frames are taken or waited for. -/
def Front.working? : Front → Option Job
  | receiving job | enqueuing job _ | draining job _ => some job
  | _ => none

theorem file?_of_working? {front : Front} {job : Job} (h : front.working? = some job) :
    front.file? = some job.file := by
  cases front <;> cases h <;> rfl

def Front.failure? : Front → Option Failure
  | draining _ failure => failure
  | purging _ f => some f
  | finished (.error f) => some f
  | _ => none

def Errand.inHand : Errand → List Piece
  | taken t | storing t => [t]
  | reporting _ => []

def Errand.report : Errand → List Outcome
  | reporting o => [o]
  | taken _ | storing _ => []

def bytesOf : Outcome → Nat
  | .ok n => n
  | .error _ => 0

def faultsOf : Outcome → Nat
  | .ok _ => 0
  | .error _ => 1

namespace Pipeline

def pending (p : Pipeline) : List Piece := p.front.inHand ++ p.toCrew.pending Errand.inHand

def reports (p : Pipeline) : List Outcome := p.results ++ p.toCrew.inHand Errand.report

def faults (p : Pipeline) : Nat := sumOver faultsOf p.reports

theorem sumOver_pending (measure : Piece → Nat) (p : Pipeline) :
    sumOver measure p.pending = sumOver measure p.front.inHand + sumOver measure p.queue
      + sumOver measure (p.toCrew.inHand Errand.inHand) := by
  rw [pending, Crew.pending, sumOver_append, sumOver_append, Nat.add_assoc]

theorem sumOver_reports (measure : Outcome → Nat) (p : Pipeline) :
    sumOver measure p.reports = sumOver measure p.results
      + sumOver measure (p.toCrew.inHand Errand.report) := by
  rw [reports, sumOver_append]

end Pipeline

/-! ## What has become of the chunks -/

/-- What has become of the chunks so far. -/
structure History where
  /-- Taken off the stream, in order. -/
  taken : List Piece
  /-- Stored. -/
  saved : List Piece
  /-- Given up. -/
  lost : List Piece

/-- Nothing has gone wrong, and the reports add up to what is stored. -/
structure Healthy (p : Pipeline) (h : History) : Prop where
  running : p.aborted = false
  content : p.failed = false
  slot : p.slot = none
  front : p.front.failure? = none
  faults : p.faults = 0
  lost : h.lost = []
  tally : p.tally + sumOver bytesOf p.reports = sumOver (·.data.length) h.saved

/-- Something has gone wrong, and the front knows or will be told. -/
inductive Doomed (p : Pipeline) : Prop where
  | front {f : Failure} (hf : p.front.failure? = some f)
  | slot {f : Failure} (hs : p.slot = some f)
  | report (content : p.failed = false) (faulty : 0 < p.faults)

/-- An upload at work: it has made the record of `file`, and takes frames or waits for the others to
leave. -/
structure Working {σ : Type} [Ledger σ] (key : Key) (owner : Int) (items : List Item) (o : Offer)
    (file : Int) (s : σ) (p : Pipeline) (h : History) : Prop where
  offered : offer items.head? = .ok o
  at_work : p.front.working? = some ⟨file, o.plan⟩
  held : Held key owner o file false s h.saved
  accounted : (p.pending ++ h.saved ++ h.lost).Perm h.taken
  received : p.received = h.taken.length
  stream : ∃ read skipped, items.tail = read ++ skipped ++ p.inbound ∧
    read.map (piece o.plan) = h.taken.map .ok ∧ (skipped = [] ∨ p.front.failure?.isSome)
  ended : ∀ job, p.front = .draining job none → p.inbound = []
  crew_eq : p.workers.length = p.crew
  crew_pos : 0 < p.crew
  closed_iff : p.closed = true ↔ ∃ job failure, p.front = .draining job failure
  loyal : p.Loyal
  drained : p.drained = true → p.deserted = true ∧ p.results = []
  fate : Healthy p h ∨ Doomed p

/-- An upload stays doomed as long as no failure is dropped. -/
theorem Doomed.carried {p q : Pipeline} (d : Doomed p)
    (front : ∀ f, p.front.failure? = some f → q.front.failure? = some f) (slot : q.slot = p.slot)
    (failed : q.failed = p.failed) (faults : q.faults = p.faults) : Doomed q := by
  cases d with
  | front hf => exact .front (front _ hf)
  | slot hs => exact .slot (slot.trans hs)
  | report content faulty => exact .report (failed.trans content) (faults ▸ faulty)

/-! ## Moves of a worker -/

section Worker

variable {p : Pipeline} {h h' : History} {n : Nat} {v w : Hand Errand} {results : List Outcome}

/-- A worker with nothing to do changes nothing in the fate of an upload. -/
theorem fate_idle {c : Crew Piece Errand} (fate : Healthy p h ∨ Doomed p)
    (m : p.toCrew.IdleMove .taken n c) :
    Healthy { p with toCrew := c } h ∨ Doomed { p with toCrew := c } := by
  have reports : ({ p with toCrew := c } : Pipeline).reports.Perm p.reports :=
    (m.inHand_perm fun _ => rfl).append_left _
  refine fate.imp (fun g => { g with faults := ?_, tally := ?_ }) fun d =>
    d.carried (fun _ => id) rfl rfl (sumOver_perm reports)
  · exact (sumOver_perm reports).trans g.faults
  · rw [sumOver_perm reports]
    exact g.tally

/-- What a worker has put down or picked up is all that changes in the reports. -/
theorem reports_moved (results : List Outcome) (w : Hand Errand) (measure : Outcome → Nat)
    (hw : p.workers[n]? = some v) :
    sumOver measure ({ p with results := results }.setWorker n w).reports
        + sumOver measure p.results + sumOver measure (v.inHand Errand.report) =
      sumOver measure p.reports + sumOver measure results
        + sumOver measure (w.inHand Errand.report) := by
  have := Crew.sumOver_setWorker (f := Errand.report) (w := w) measure hw
  simp only [Pipeline.sumOver_reports, Pipeline.setWorker]
  omega

/-- What a worker has put down or picked up is all that changes in the chunks under way. -/
theorem pending_moved (results : List Outcome) (w : Hand Errand) (measure : Piece → Nat)
    (hw : p.workers[n]? = some v) :
    sumOver measure ({ p with results := results }.setWorker n w).pending
        + sumOver measure (v.inHand Errand.inHand) =
      sumOver measure p.pending + sumOver measure (w.inHand Errand.inHand) := by
  have := Crew.sumOver_setWorker (f := Errand.inHand) (w := w) measure hw
  simp only [Pipeline.sumOver_pending, Pipeline.setWorker, Crew.queue_setWorker]
  omega

theorem Healthy.moved (g : Healthy p h) (hw : p.workers[n]? = some v)
    (faults : sumOver faultsOf results + sumOver faultsOf (w.inHand Errand.report) =
      sumOver faultsOf p.results + sumOver faultsOf (v.inHand Errand.report))
    (tally : sumOver bytesOf results + sumOver bytesOf (w.inHand Errand.report)
        + sumOver (·.data.length) h.saved =
      sumOver bytesOf p.results + sumOver bytesOf (v.inHand Errand.report)
        + sumOver (·.data.length) h'.saved)
    (lost : h'.lost = h.lost) : Healthy ({ p with results := results }.setWorker n w) h' where
  running := g.running
  content := g.content
  slot := g.slot
  front := g.front
  faults := by
    have := reports_moved results w faultsOf hw
    have := g.faults
    simp only [Pipeline.faults] at this ⊢
    omega
  lost := lost.trans g.lost
  tally := by
    have := reports_moved results w bytesOf hw
    have := g.tally
    show p.tally + sumOver bytesOf _ = _
    omega

theorem Doomed.moved (d : Doomed p) (hw : p.workers[n]? = some v)
    (faults : sumOver faultsOf p.results + sumOver faultsOf (v.inHand Errand.report) ≤
      sumOver faultsOf results + sumOver faultsOf (w.inHand Errand.report)) :
    Doomed ({ p with results := results }.setWorker n w) := by
  cases d with
  | front hf => exact .front hf
  | slot hs => exact .slot hs
  | report content faulty =>
    refine .report content ?_
    have := reports_moved results w faultsOf hw
    simp only [Pipeline.faults] at faulty ⊢
    omega

theorem fate_moved (fate : Healthy p h ∨ Doomed p) (hw : p.workers[n]? = some v)
    (faults : sumOver faultsOf results + sumOver faultsOf (w.inHand Errand.report) =
      sumOver faultsOf p.results + sumOver faultsOf (v.inHand Errand.report))
    (tally : sumOver bytesOf results + sumOver bytesOf (w.inHand Errand.report)
        + sumOver (·.data.length) h.saved =
      sumOver bytesOf p.results + sumOver bytesOf (v.inHand Errand.report)
        + sumOver (·.data.length) h'.saved)
    (lost : h'.lost = h.lost) :
    Healthy ({ p with results := results }.setWorker n w) h' ∨
      Doomed ({ p with results := results }.setWorker n w) :=
  fate.imp (·.moved hw faults tally lost) (·.moved hw (Nat.le_of_eq faults.symm))

end Worker

variable {σ : Type} [Ledger σ] {key : Key} {owner file : Int} {items : List Item} {o : Offer}
  {s t : σ} {p q : Pipeline} {h : History}

/-- While a worker is there, the accumulator has not left. -/
theorem Working.undrained (work : Working key owner items o file s p h)
    {n : Nat} (present : p.Present n) : p.drained ≠ true := fun hd =>
  present.not_gone (Crew.deserted_iff.1 (work.drained hd).1)

/-- A worker with nothing to do leaves the upload at work. -/
theorem Working.idle {n : Nat} {c : Crew Piece Errand}
    (work : Working key owner items o file s p h) (m : p.toCrew.IdleMove .taken n c) :
    Working key owner items o file s { p with toCrew := c } h :=
  { work with
    accounted := by
      have same : ({ p with toCrew := c } : Pipeline).pending.Perm p.pending :=
        (m.pending_perm fun _ => rfl).append_left _
      exact ((same.append_right _).append_right _).trans work.accounted
    crew_eq := m.length_eq.trans work.crew_eq
    closed_iff := by
      rw [m.closed_eq]
      exact work.closed_iff
    loyal := work.loyal.idle m
    drained := fun hd => absurd hd (work.undrained m.present)
    fate := fate_idle work.fate m }

/-- A worker done with an errand, with the chunks accounted for, leaves the upload at work. -/
theorem Working.moved {n : Nat} {e : Errand} {w : Hand Errand}
    (work : Working key owner items o file s p h) (results : List Outcome) (h' : History)
    (hw : p.workers[n]? = some (.busy e)) (stays : w ≠ .exited)
    (held : Held key owner o file false t h'.saved) (taken : h'.taken = h.taken)
    (accounted : ∀ measure : Piece → Nat, sumOver measure (w.inHand Errand.inHand)
        + sumOver measure h'.saved + sumOver measure h'.lost =
      sumOver measure e.inHand + sumOver measure h.saved + sumOver measure h.lost)
    (fate : Healthy ({ p with results := results }.setWorker n w) h' ∨
      Doomed ({ p with results := results }.setWorker n w)) :
    Working key owner items o file t ({ p with results := results }.setWorker n w) h' where
  offered := work.offered
  at_work := work.at_work
  held := held
  accounted := by
    apply perm_iff_sumOver.2
    intro measure
    have before := perm_iff_sumOver.1 work.accounted measure
    have moved := pending_moved results w measure hw
    have here := accounted measure
    rw [taken]
    simp only [sumOver_append, Hand.inHand] at before moved here ⊢
    omega
  received := by
    rw [taken]
    exact work.received
  stream := by
    rw [taken]
    exact work.stream
  ended := work.ended
  crew_eq := List.length_set.trans work.crew_eq
  crew_pos := work.crew_pos
  closed_iff := work.closed_iff
  loyal := work.loyal.setWorker stays
  drained hd := absurd hd (work.undrained ⟨_, hw, nofun⟩)
  fate := fate

section Step

variable [Store σ] [LawfulStore σ] {n : Nat} {iv : Option Nonce}

/-- A worker keeps an upload at work, and changes nothing in the store but the chunks of the
file. -/
theorem Working.worker (work : Working key owner items o file s p h) (sound : Sound s)
    (m : WorkerMove key n iv s p t q) :
    Changes file s t ∧ record? t file = record? s file ∧
      ∃ h', Working key owner items o file t q h' := by
  have same := Changes.refl sound file
  cases m with
  | idle m => exact ⟨same, rfl, h, work.idle m⟩
  | @drop t hw ha =>
    refine ⟨same, rfl, { h with lost := t :: h.lost }, work.moved p.results _ hw (by simp)
      work.held rfl (fun measure => ?_) (.inr ?_)⟩
    · simp only [Hand.inHand, Errand.inHand, sumOver_cons, sumOver_nil]
      omega
    -- A chunk is dropped only where the upload was stopped, and then it is doomed.
    · rcases work.fate with healthy | doomed
      · rw [healthy.running] at ha
        cases ha
      · exact doomed.moved hw (Nat.le_refl _)
  | begin hw ha =>
    exact ⟨same, rfl, h, work.moved p.results h hw (by simp) work.held rfl (fun _ => rfl)
      (fate_moved work.fate hw rfl rfl rfl)⟩
  | @store t file' u hw hf hs =>
    cases hf.symm.trans (file?_of_working? work.at_work)
    obtain ⟨changes, record_eq, -⟩ := storePiece_eq_ok sound hs
    refine ⟨changes, record_eq, { h with saved := t :: h.saved },
      work.moved p.results _ hw (by simp) (work.held.save sound hs) rfl (fun measure => ?_)
        (fate_moved work.fate hw rfl ?_ rfl)⟩
    · simp only [Hand.inHand, Errand.inHand, sumOver_cons, sumOver_nil]
      omega
    · simp only [Hand.inHand, Errand.report, bytesOf, sumOver_cons, sumOver_nil]
      omega
  | @fail t file' f hw hf hs =>
    refine ⟨same, rfl, { h with lost := t :: h.lost }, work.moved p.results _ hw (by simp)
      work.held rfl (fun measure => ?_) (.inr ?_)⟩
    · simp only [Hand.inHand, Errand.inHand, sumOver_cons, sumOver_nil]
      omega
    · rcases work.fate with healthy | doomed
      · refine .report healthy.content ?_
        have := reports_moved p.results (.busy (.reporting (.error f))) faultsOf hw
        simp only [Hand.inHand, Errand.report, faultsOf, sumOver_cons, sumOver_nil] at this
        show 0 < sumOver faultsOf _
        omega
      · exact doomed.moved hw (by simp [Hand.inHand, Errand.report])
  | @report r hw room =>
    refine ⟨same, rfl, h, work.moved (p.results ++ [r]) h hw (by simp) work.held rfl
      (fun _ => rfl) (fate_moved work.fate hw ?_ ?_ rfl)⟩
    · simp [Hand.inHand, Errand.report]
    · simp [Hand.inHand, Errand.report]

end Step

/-! ## Moves of the accumulator and of the front -/

/-- What the accumulator takes is no longer among the reports. -/
theorem reports_taken (measure : Outcome → Nat) {r : Outcome} {others : List Outcome}
    (hr : p.results = r :: others) (hq : q.results = others) (hw : q.workers = p.workers) :
    sumOver measure p.reports = measure r + sumOver measure q.reports := by
  simp only [Pipeline.sumOver_reports, Crew.inHand, hr, hq, hw, sumOver_cons]
  omega

theorem Working.accumulator (work : Working key owner items o file s p h)
    (m : AccumulatorMove p q) : Working key owner items o file s q h := by
  have undrained : p.results ≠ [] → p.drained = false := fun hne =>
    Bool.not_eq_true _ ▸ fun hd => hne (work.drained hd).2
  cases m with
  | @add n others hr =>
    generalize htally : (if p.failed then p.tally else p.tally + n) = tally
    have faults_eq := reports_taken (q := { p with results := others, tally := tally })
      faultsOf hr rfl rfl
    have bytes_eq := reports_taken (q := { p with results := others, tally := tally })
      bytesOf hr rfl rfl
    simp only [faultsOf, bytesOf, Nat.zero_add] at faults_eq bytes_eq
    refine { work with drained := ?drained, fate := ?fate }
    case drained => simp [undrained (by simp [hr])]
    case fate =>
      rcases work.fate with healthy | doomed
      · refine .inl { healthy with
          faults := faults_eq.symm.trans healthy.faults
          tally := ?_ }
        have := healthy.tally
        rw [if_neg (by simp [healthy.content])] at htally
        show tally + sumOver bytesOf _ = _
        omega
      · exact .inr (doomed.carried (fun _ => id) rfl rfl faults_eq.symm)
  | @pass f others hr hfailed =>
    refine { work with drained := ?drained, fate := ?fate }
    case drained => simp [undrained (by simp [hr])]
    case fate =>
      rcases work.fate with healthy | doomed
      · simp [healthy.content] at hfailed
      · cases doomed with
        | front hf => exact .inr (.front hf)
        | slot hs => exact .inr (.slot hs)
        | report content faulty => simp [content] at hfailed
  | @stop f others hr hfailed =>
    refine { work with drained := ?drained, fate := ?fate }
    case drained => simp [undrained (by simp [hr])]
    case fate =>
      cases hs : p.slot with
      | none | some g => exact .inr (.slot rfl)
  | leave hr hc gone hd =>
    refine { work with drained := fun _ => ⟨gone, hr⟩, fate := ?_ }
    exact work.fate.imp (fun healthy => { healthy with }) fun doomed =>
      doomed.carried (fun _ => id) rfl rfl rfl

/-- A front that carries no failure, before and after, leaves the fate of the upload open. -/
theorem fate_of_front {h' : History} (fate : Healthy p h ∨ Doomed p)
    (clean : p.front.failure? = none) (clean' : q.front.failure? = none)
    (slot : q.slot = p.slot) (failed : q.failed = p.failed) (aborted : q.aborted = p.aborted)
    (tally : q.tally = p.tally) (reports : q.reports = p.reports) (saved : h'.saved = h.saved)
    (lost : h'.lost = h.lost) : Healthy q h' ∨ Doomed q := by
  have faults : q.faults = p.faults := by rw [Pipeline.faults, Pipeline.faults, reports]
  rcases fate with healthy | doomed
  · left
    constructor
    case running => exact aborted.trans healthy.running
    case content => exact failed.trans healthy.content
    case slot => exact slot.trans healthy.slot
    case front => exact clean'
    case faults => exact faults.trans healthy.faults
    case lost => exact lost.trans healthy.lost
    case tally =>
      rw [tally, reports, saved]
      exact healthy.tally
  · right
    apply doomed.carried _ slot failed faults
    intro f hf
    simp [clean] at hf

theorem Working.close (work : Working key owner items o file s p h)
    (hf : p.front = .receiving ⟨file, o.plan⟩) {failure : Option Failure}
    {rest : List Item} {slot : Option Failure}
    (stream : ∃ read skipped, items.tail = read ++ skipped ++ rest ∧
      read.map (piece o.plan) = h.taken.map .ok ∧ (skipped = [] ∨ failure.isSome))
    (ended : failure = none → rest = [] ∧ slot = p.slot) :
    Working key owner items o file s
      ({ p with slot := slot, inbound := rest }.close ⟨file, o.plan⟩ failure) h := by
  refine { work with
    at_work := rfl
    accounted := ?accounted
    stream := stream
    ended := ?ended
    closed_iff := ?closed_iff
    loyal := work.loyal.close
    fate := ?fate }
  case accounted =>
    have := work.accounted
    rwa [Pipeline.pending, hf] at this
  case ended =>
    rintro job hjob
    cases hjob
    exact (ended rfl).1
  case closed_iff => exact iff_of_true rfl ⟨_, _, rfl⟩
  case fate =>
    cases failure with
    | some f => exact .inr (.front rfl)
    | none =>
      obtain ⟨-, rfl⟩ := ended rfl
      have aborted : (p.aborted || (none : Option Failure).isSome) = p.aborted := Bool.or_false _
      exact fate_of_front work.fate (by rw [hf]; rfl) rfl rfl rfl aborted rfl rfl rfl rfl

/-- The front closes the queue over a frame that brings no chunk of the plan. -/
theorem Working.reject (work : Working key owner items o file s p h) {item : Item}
    {others : List Item} {f : Failure} (hf : p.front = .receiving ⟨file, o.plan⟩)
    (hi : p.inbound = item :: others) : Working key owner items o file s
      ({ p with inbound := others }.close ⟨file, o.plan⟩ (some f)) h := by
  obtain ⟨read, skipped, htail, hread, -⟩ := work.stream
  have stream : items.tail = read ++ (skipped ++ [item]) ++ others := by simp [htail, hi]
  exact work.close hf ⟨_, _, stream, hread, .inr rfl⟩ nofun

theorem Working.receive (work : Working key owner items o file s p h)
    (hf : p.front = .receiving ⟨file, o.plan⟩) {item : Item} {others : List Item} {t : Piece}
    (hi : p.inbound = item :: others) (ht : piece o.plan item = .ok t) :
    Working key owner items o file s { p with
        front := .enqueuing ⟨file, o.plan⟩ t, inbound := others, received := p.received + 1 }
      { h with taken := h.taken ++ [t] } := by
  refine { work with
    at_work := rfl
    accounted := ?accounted
    received := ?received
    stream := ?stream
    ended := nofun
    closed_iff := ?closed_iff
    fate := ?fate }
  case accounted =>
    apply perm_iff_sumOver.2
    intro measure
    have := perm_iff_sumOver.1 work.accounted measure
    simp only [sumOver_append, Pipeline.sumOver_pending, Crew.inHand, hf, Front.inHand,
      sumOver_cons, sumOver_nil] at this ⊢
    omega
  case received => simp [work.received]
  case stream =>
    obtain ⟨read, skipped, htail, hread, hskip⟩ := work.stream
    have hskip : skipped = [] := by simpa [hf, Front.failure?] using hskip
    subst hskip
    exact ⟨read ++ [item], [], by simp [htail, hi], by simp [hread, ht], .inl rfl⟩
  case closed_iff =>
    have := work.closed_iff
    simp only [hf, reduceCtorEq, exists_false] at this ⊢
    exact this
  case fate => exact fate_of_front work.fate (by rw [hf]; rfl) rfl rfl rfl rfl rfl rfl rfl rfl

theorem Working.enqueue (work : Working key owner items o file s p h) {t : Piece}
    (hf : p.front = .enqueuing ⟨file, o.plan⟩ t) :
    Working key owner items o file s
      { p with front := .receiving ⟨file, o.plan⟩, queue := p.queue ++ [t] } h := by
  have opened : p.closed = false := by
    have := work.closed_iff
    simp only [hf, reduceCtorEq, exists_false] at this
    exact Bool.not_eq_true _ ▸ this.1
  refine { work with
    at_work := rfl
    accounted := ?accounted
    stream := ?stream
    ended := nofun
    closed_iff := ?closed_iff
    loyal := work.loyal.put opened t
    fate := ?fate }
  case accounted =>
    apply perm_iff_sumOver.2
    intro measure
    have := perm_iff_sumOver.1 work.accounted measure
    simp only [sumOver_append, Pipeline.sumOver_pending, Crew.inHand, hf, Front.inHand,
      sumOver_cons, sumOver_nil] at this ⊢
    omega
  case stream => simpa [hf, Front.failure?] using work.stream
  case closed_iff => simp [opened]
  case fate => exact fate_of_front work.fate (by rw [hf]; rfl) rfl rfl rfl rfl rfl rfl rfl rfl

end Strongbox.Upload
