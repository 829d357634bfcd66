import Strongbox.Proofs.Upload.Invariant

/-!
# Why an upload fails

As long as nonces can be drawn and nobody deletes the file of an upload, every failure that is on
its way to the answer is one that can be read off the stream.
-/

namespace Strongbox.Upload

open Message Ledger

/-- What can be said against a stream. -/
inductive Blame (items : List Item) : Failure → Prop where
  | refused {f : Failure} (ho : offer items.head? = .error f) : Blame items f
  | rejected {o : Offer} {item : Item} {f : Failure} (ho : offer items.head? = .ok o)
      (there : item ∈ items.tail) (ht : piece o.plan item = .error f) : Blame items f
  | twice {o : Offer} {read rest : List Item} {ps : List Piece} {i : Nat} (file : Int)
      (ho : offer items.head? = .ok o) (cut : items.tail = read ++ rest)
      (hread : read.map (piece o.plan) = ps.map .ok) (twice : 2 ≤ (ps.map (·.index)).count i) :
      Blame items (.duplicateChunk file i)
  | short {o : Offer} {ps : List Piece} (ho : offer items.head? = .ok o)
      (hread : items.tail.map (piece o.plan) = ps.map .ok) (nodup : (ps.map (·.index)).Nodup)
      (length_ne : ps.length ≠ o.plan.total) : Blame items (miscounted ps.length o.plan.total)

/-- A failure is on its way to the answer. -/
inductive Pipeline.Carries (p : Pipeline) (f : Failure) : Prop where
  | front (hf : p.front.failure? = some f)
  | slot (hs : p.slot = some f)
  | report (hr : .error f ∈ p.reports)

/-- Where there is nothing but what a worker has put down, there is no other report. -/
theorem mem_reports_moved {p : Pipeline} {n : Nat} {w : Hand Errand} {results : List Outcome}
    {r : Outcome} (h : r ∈ ({ p with results := results }.setWorker n w).reports) :
    r ∈ results ∨ r ∈ w.inHand Errand.report ∨ r ∈ p.reports := by
  rcases List.mem_append.1 h with told | held
  · exact .inl told
  · obtain ⟨v, hv, hr⟩ := List.mem_flatMap.1 held
    rcases List.mem_or_eq_of_mem_set hv with old | rfl
    · exact .inr (.inr (List.mem_append_right _ (List.mem_flatMap.2 ⟨v, old, hr⟩)))
    · exact .inr (.inl hr)

theorem Pipeline.Carries.of_idle {p : Pipeline} {n : Nat} {c : Crew Piece Errand} {f : Failure}
    (m : p.toCrew.IdleMove .taken n c) (h : ({ p with toCrew := c } : Pipeline).Carries f) :
    p.Carries f := by
  cases h with
  | front hf => exact .front hf
  | slot hs => exact .slot hs
  | report hr =>
    have same : ({ p with toCrew := c } : Pipeline).reports.Perm p.reports :=
      (m.inHand_perm fun _ => rfl).append_left _
    exact .report (same.mem_iff.1 hr)

theorem Pipeline.Carries.moved {p : Pipeline} {n : Nat} {w : Hand Errand} {results : List Outcome}
    {f : Failure} (h : ({ p with results := results }.setWorker n w).Carries f)
    (told : .error f ∈ results → .error f ∈ p.reports) :
    .error f ∈ w.inHand Errand.report ∨ p.Carries f := by
  cases h with
  | front hf => exact .inr (.front hf)
  | slot hs => exact .inr (.slot hs)
  | report hr =>
    rcases mem_reports_moved hr with new | own | old
    · exact .inr (.report (told new))
    · exact .inl own
    · exact .inr (.report old)

theorem Pipeline.Carries.of_accumulator {p q : Pipeline} {f : Failure} (m : AccumulatorMove p q)
    (h : q.Carries f) : p.Carries f := by
  have kept : ∀ {r : Outcome} {others : List Outcome}, p.results = r :: others →
      .error f ∈ others ++ p.toCrew.inHand Errand.report → p.Carries f := by
    intro r others hr hmem
    refine .report ?_
    rw [Pipeline.reports, hr, List.cons_append]
    exact List.mem_cons_of_mem _ hmem
  cases m with
  | add hr | pass hr =>
    cases h with
    | front hf => exact .front hf
    | slot hs => exact .slot hs
    | report hmem => exact kept hr hmem
  | @stop g others hr hfailed =>
    cases h with
    | front hf => exact .front hf
    | slot hs =>
      rcases Option.or_eq_some_iff.1 hs with old | ⟨-, new⟩
      · exact .slot old
      · cases new
        refine .report ?_
        rw [Pipeline.reports, hr]
        exact List.mem_cons_self
    | report hmem => exact kept hr hmem
  | leave hr =>
    cases h with
    | front hf => exact .front hf
    | slot hs => exact .slot hs
    | report hmem => exact .report hmem

variable {σ : Type} [Ledger σ]

/-- The file of the upload is visible, and all failures on their way are deserved. -/
structure Fair (key : Key) (owner : Int) (items : List Item) (s : σ) (p : Pipeline) : Prop where
  inv : Inv key owner items s p
  visible : ∀ file, p.front.charge? = some file → (live? s file).isSome
  deserved : ∀ f, p.Carries f → Blame items f

variable {key : Key} {owner file : Int} {items : List Item} {o : Offer} {s t : σ}
  {p q : Pipeline} {h : History} {now : Moment}

theorem Fair.start (key : Key) (owner : Int) (workers : Nat) (items : List Item) (s : σ) :
    Fair key owner items s (.start workers items) where
  inv := .start key owner workers items s
  visible := nofun
  deserved f carried := by
    cases carried with
    | front hf | slot hs => simp [Pipeline.start, Front.failure?] at *
    | report hr => simp [Pipeline.start, Pipeline.reports, Crew.inHand] at hr

/-- What leaves the record and the chunks of the file alone leaves the upload fair. -/
theorem Fair.elsewhere (fair : Fair key owner items s p)
    (alone : ∀ file, p.front.charge? = some file →
      record? t file = record? s file ∧ rows t file = rows s file) :
    Fair key owner items t p where
  inv := fair.inv.spared fun file hfile =>
    ⟨(alone file hfile).2, fun r hr => .inl ((alone file hfile).1.trans hr)⟩
  visible file hfile := by
    rw [live?, (alone file hfile).1]
    exact fair.visible file hfile
  deserved := fair.deserved

/-! ## A chunk that is there already -/

/-- The chunk in the hands of a worker is one of those under way. -/
theorem mem_pending {n : Nat} {e : Errand} {t : Piece} (hw : p.workers[n]? = some (.busy e))
    (ht : t ∈ e.inHand) : t ∈ p.pending :=
  List.mem_append_right _ (List.mem_append_right _
    (Crew.mem_inHand (List.mem_of_getElem? hw) ht))

/-- An index that is under way and stored has been taken off the stream twice. -/
theorem Working.two_le_count (work : Working key owner items o file s p h) {t : Piece}
    (ht : t ∈ p.pending) (there : ∃ d ∈ rows s file, d.index = t.index) :
    2 ≤ (h.taken.map (·.index)).count t.index := by
  obtain ⟨d, hd, hindex⟩ := there
  have pending : 0 < (p.pending.map (·.index)).count t.index :=
    List.count_pos_iff.2 (List.mem_map_of_mem ht)
  have saved : 0 < (h.saved.map (·.index)).count t.index := by
    refine List.count_pos_iff.2 (work.held.indices.mem_iff.1 ?_)
    rw [← hindex]
    exact List.mem_map_of_mem hd
  have := (work.accounted.map (·.index)).count_eq t.index
  rw [List.map_append, List.map_append, List.count_append, List.count_append] at this
  omega

theorem sealing_fits {o : Offer} {t : Piece} (sound : o.IsSound) (fits : o.plan.Fits t) :
    Sealing.fits t.data = true := by
  have := fits.length_eq
  have := o.plan.spanLength_le t.index
  have := sound.chunkSize_le
  have small : t.data.length ≤ 2147483647 := by
    simp only [Word.maxInt32] at this
    omega
  refine decide_eq_true (Nat.div_lt_of_lt_mul ?_)
  simp only [Sealing.blockLimit, Word.count32]
  omega

/-! ## Moves -/

/-- The nonce asked for, if one is, could be drawn. -/
def Move.Drawn : Move → Prop
  | worker _ none => False
  | _ => True

variable [Store σ] [LawfulStore σ]

/-- A worker fails only over a chunk that is there already. -/
theorem Fair.blame (fair : Fair key owner items s p) (sound : Sound s) {n : Nat} {nonce : Nonce}
    {t : Piece} {f : Failure} (hw : p.workers[n]? = some (.busy (.storing t)))
    (hf : p.front.file? = some file) (hs : storePiece key file (some nonce) s t = .error f) :
    Blame items f := by
  have ht : t ∈ p.pending := mem_pending hw (List.mem_singleton_self t)
  have present : ¬Still p := fun still => by
    cases still.gone _ (List.mem_of_getElem? hw)
  have visible := fair.visible file (charge?_of_file? hf)
  cases fair.inv with
  | working work =>
    cases hf.symm.trans (file?_of_working? work.at_work)
    obtain ⟨read, skipped, htail, hread, -⟩ := work.stream
    have fits := sealing_fits (isSound_of_offer work.offered) (work.fits_pending t ht)
    rcases storePiece_eq_error sound fits hs with gone | ⟨rfl, there⟩
    · rw [gone] at visible
      cases visible
    · have cut : items.tail = read ++ (skipped ++ p.inbound) := by rw [htail, List.append_assoc]
      exact .twice _ work.offered cut hread (work.two_le_count ht there)
  | opening _ fresh | creating _ fresh => exact absurd fresh.still present
  | completing _ still | purging _ still | done _ still | failed _ still =>
    exact absurd still present

omit [Store σ] [LawfulStore σ] in
/-- A worker elsewhere leaves the upload fair, if its own report is deserved. -/
theorem Fair.moved {n : Nat} {w : Hand Errand} {results : List Outcome}
    (fair : Fair key owner items s p)
    (inv : Inv key owner items t ({ p with results := results }.setWorker n w))
    (record_eq : ∀ file, p.front.charge? = some file → record? t file = record? s file)
    (told : ∀ f, .error f ∈ results → .error f ∈ p.reports)
    (own : ∀ f, .error f ∈ w.inHand Errand.report → Blame items f) :
    Fair key owner items t ({ p with results := results }.setWorker n w) where
  inv := inv
  visible file hfile := by
    rw [live?, record_eq file hfile]
    exact fair.visible file hfile
  deserved f carried := (carried.moved (told f)).elim (own f) (fair.deserved f)

theorem Fair.worker (fair : Fair key owner items s p) (sound : Sound s) {n : Nat}
    {iv : Option Nonce} (drawn : (Move.worker n iv).Drawn) (m : WorkerMove key n iv s p t q) :
    Fair key owner items t q := by
  have inv := (fair.inv.worker sound m).2
  have told : ∀ f : Failure, .error f ∈ p.results → .error f ∈ p.reports := fun f hmem =>
    List.mem_append.2 (.inl hmem)
  cases iv with
  | none => exact drawn.elim
  | some nonce =>
    cases m with
    | idle m =>
      exact ⟨inv, fair.visible, fun f carried => fair.deserved f (carried.of_idle m)⟩
    | drop hw | begin hw => exact fair.moved inv (fun _ _ => rfl) told nofun
    | store hw hf hs =>
      refine fair.moved inv (fun file hfile => ?_) told (by simp [Hand.inHand, Errand.report])
      cases (charge?_of_file? hf).symm.trans hfile
      exact (storePiece_eq_ok sound hs).2.1
    | fail hw hf hs =>
      refine fair.moved inv (fun _ _ => rfl) told fun f hmem => ?_
      cases List.mem_singleton.1 hmem
      exact fair.blame sound hw hf hs
    | @report r hw room =>
      refine fair.moved inv (fun _ _ => rfl) (fun f hmem => ?_) nofun
      rcases List.mem_append.1 hmem with old | new
      · exact told f old
      · exact List.mem_append_right _ (Crew.mem_inHand (List.mem_of_getElem? hw) new)

omit [Store σ] [LawfulStore σ] in
theorem Fair.accumulator (fair : Fair key owner items s p) (m : AccumulatorMove p q) :
    Fair key owner items s q where
  inv := fair.inv.accumulator m
  visible := by
    cases m <;> exact fair.visible
  deserved f carried := fair.deserved f (carried.of_accumulator m)

omit [Store σ] [LawfulStore σ] in
/-- A front elsewhere leaves the upload fair, if the failure it carries was on its way or is
deserved. -/
theorem Fair.turned (fair : Fair key owner items s p) (inv : Inv key owner items t q)
    (visible : ∀ file, q.front.charge? = some file → (live? t file).isSome)
    (slot : ∀ f, q.slot = some f → p.slot = some f)
    (reports : ∀ f, .error f ∈ q.reports → .error f ∈ p.reports)
    (own : ∀ f, q.front.failure? = some f → p.Carries f ∨ Blame items f) :
    Fair key owner items t q where
  inv := inv
  visible := visible
  deserved f carried := by
    cases carried with
    | front hf => exact (own f hf).elim (fair.deserved f) id
    | slot hs => exact fair.deserved f (.slot (slot f hs))
    | report hr => exact fair.deserved f (.report (reports f hr))

omit [Store σ] [LawfulStore σ] in
/-- A front elsewhere that keeps to its file and carries no failure leaves the upload fair. -/
theorem Fair.unharmed (fair : Fair key owner items s p) (inv : Inv key owner items s q)
    (charge : ∀ file, q.front.charge? = some file → p.front.charge? = some file)
    (slot : q.slot = p.slot) (reports : q.reports = p.reports) (clean : q.front.failure? = none) :
    Fair key owner items s q := by
  apply fair.turned inv
  · intro file hfile
    exact fair.visible file (charge file hfile)
  · intro f hs
    exact slot ▸ hs
  · intro f hmem
    exact reports ▸ hmem
  · intro f hf
    rw [clean] at hf
    cases hf

omit [Store σ] [LawfulStore σ] in
/-- A front elsewhere that keeps to its file leaves the upload fair, if the failure that it carries
was on its way or is deserved. -/
theorem Fair.blamed (fair : Fair key owner items s p) (inv : Inv key owner items s q) {f : Failure}
    (carried : q.front.failure? = some f) (own : p.Carries f ∨ Blame items f)
    (charge : ∀ file, q.front.charge? = some file → p.front.charge? = some file)
    (slot : ∀ g, q.slot = some g → p.slot = some g) (reports : q.reports = p.reports) :
    Fair key owner items s q := by
  apply fair.turned inv
  · intro file hfile
    exact fair.visible file (charge file hfile)
  · exact slot
  · intro g hmem
    exact reports ▸ hmem
  · intro g hg
    cases carried.symm.trans hg
    exact own

theorem Fair.create (fair : Fair key owner items s p) (sound : Sound s)
    (hf : p.front = .creating o) (hs : Store.create s now owner o.draft = .ok (file, t)) :
    Fair key owner items t { p with
      front := .receiving ⟨file, o.plan⟩, phase := .receivingChunks
      workers := List.replicate p.crew .waiting } := by
  obtain ⟨fresh, -⟩ := fair.inv.of_creating hf
  apply fair.turned (fair.inv.front sound (.create hf hs)).2
  · intro g hg
    cases hg
    have outcome := LawfulStore.create now owner o.draft sound
    rw [hs] at outcome
    cases outcome with
    | done isNew tells sound' last_eq record_eq rows_eq =>
      simp [live?, record_eq, isNew.visible]
  · exact fun f hslot => hslot
  · intro f hmem
    rw [Pipeline.reports, fresh.results, List.nil_append] at hmem
    obtain ⟨w, hw, hr⟩ := List.mem_flatMap.1 hmem
    cases List.eq_of_mem_replicate hw
    cases hr
  · intro f hfail
    cases hfail

omit [Store σ] [LawfulStore σ] in
/-- A frame that brings no chunk of the plan is the stream's own fault. -/
theorem Fair.reject {job : Job} {item : Item} {others : List Item} {f : Failure}
    (fair : Fair key owner items s p) (hf : p.front = .receiving job)
    (hi : p.inbound = item :: others) (ht : piece job.plan item = .error f) : Blame items f := by
  obtain ⟨file, o, h, rfl, work⟩ := fair.inv.of_working (by rw [hf]; rfl)
  obtain ⟨read, skipped, htail, -⟩ := work.stream
  have there : item ∈ items.tail := by
    rw [htail, hi]
    exact List.mem_append_right _ List.mem_cons_self
  exact .rejected work.offered there ht

/-- So is a number of chunks that is not the one announced. -/
theorem Fair.lack {job : Job} (fair : Fair key owner items s p) (sound : Sound s)
    (hf : p.front = .draining job none) (gone : p.deserted = true) (hd : p.drained = true)
    (hs : p.slot = none) (hr : p.received ≠ job.plan.total) :
    Blame items (miscounted p.received job.plan.total) := by
  obtain ⟨file, o, h, rfl, work⟩ := fair.inv.of_working (by rw [hf]; rfl)
  have nodup := work.taken_nodup gone hd sound hf hs
  rw [work.received] at hr ⊢
  exact .short work.offered (work.read_all hf) nodup hr

theorem Fair.complete {job : Job} (fair : Fair key owner items s p) (sound : Sound s)
    (hf : p.front = .completing job) (hs : Store.complete s job.file p.tally = .ok t)
    (inv : Inv key owner items t
      { p with front := .finished (.ok ⟨job.file, p.tally⟩), phase := .complete }) :
    Fair key owner items t
      { p with front := .finished (.ok ⟨job.file, p.tally⟩), phase := .complete } := by
  apply fair.turned inv
  · intro g hg
    cases hg
    have outcome := fair.inv.completing_outcome sound hf
    rw [hs] at outcome
    cases outcome with
    | done live filled changes record_eq rows_eq =>
      have hidden := (live?_eq_some_iff.1 live).2
      simp [live?, record_eq, Record.completed, hidden]
  · exact fun f hslot => hslot
  · exact fun f hmem => hmem
  · intro f hfail
    cases hfail

/-- A file that can be seen and has all its chunks can be completed. -/
theorem Fair.completes {job : Job} {f : Failure} (fair : Fair key owner items s p)
    (sound : Sound s) (hf : p.front = .completing job) :
    Store.complete s job.file p.tally ≠ .error f := by
  intro hs
  have live := fair.visible job.file (by rw [hf]; rfl)
  have outcome := fair.inv.completing_outcome sound hf
  obtain ⟨file, o, ps, rfl, still, passed, held, tally⟩ := fair.inv.of_completing hf
  rw [hs] at outcome
  cases outcome with
  | missing gone =>
    rw [gone] at live
    cases live
  | miscounted found short =>
    obtain ⟨r, hr, declares, -⟩ := held.record
    cases hr.symm.trans (live?_eq_some_iff.1 found).1
    exact absurd (held.filled passed.all declares.totalChunks_eq) short

omit [Store σ] [LawfulStore σ] in
/-- Whether the file could be removed or not, the answer is the failure that was on its way. -/
theorem Fair.settle {job : Job} {f : Failure} (fair : Fair key owner items s p)
    (hf : p.front = .purging job f)
    (inv : Inv key owner items t { p with front := .finished (.error f) }) :
    Fair key owner items t { p with front := .finished (.error f) } := by
  apply fair.turned inv
  · intro g hg
    cases hg
  · exact fun g hslot => hslot
  · exact fun g hmem => hmem
  · intro g hg
    left
    apply Pipeline.Carries.front
    rw [hf]
    exact hg

theorem Fair.front (fair : Fair key owner items s p) (sound : Sound s)
    (m : FrontMove owner now s p t q) : Fair key owner items t q := by
  have inv := (fair.inv.front sound m).2
  cases m with
  | accept hf ho => exact fair.unharmed inv (fun _ h => by cases h) rfl rfl rfl
  | refuse hf ho =>
    have blame : Blame items _ := .refused ((fair.inv.of_opening hf).2 ▸ ho)
    exact fair.blamed inv rfl (.inr blame) (fun _ h => by cases h) (fun _ => id) rfl
  | create hf hs => exact fair.create sound hf hs
  | @miss o f hf hs =>
    -- A store that keeps to its contract refuses no file.
    have outcome := LawfulStore.create now owner o.draft sound
    rw [hs] at outcome
    cases outcome
  | heed hf hs =>
    exact fair.blamed inv rfl (.inl (.slot hs)) (by rw [hf]; exact fun _ => id)
      (fun _ h => by cases h) rfl
  | rest hf | receive hf | enqueue hf | pass hf =>
    exact fair.unharmed inv (by rw [hf]; exact fun _ => id) rfl rfl rfl
  | reject hf hs hi ht =>
    exact fair.blamed inv rfl (.inr (fair.reject hf hi ht)) (by rw [hf]; exact fun _ => id)
      (fun _ => id) rfl
  | @doom job failure f hf gone hd hfail =>
    have carried : p.Carries f := by
      rcases Option.or_eq_some_iff.1 hfail with own | ⟨-, told⟩
      · apply Pipeline.Carries.front
        rw [hf]
        exact own
      · exact .slot told
    exact fair.blamed inv rfl (.inl carried) (by rw [hf]; exact fun _ => id) (fun _ => id) rfl
  | lack hf gone hd hs hr =>
    exact fair.blamed inv rfl (.inr (fair.lack sound hf gone hd hs hr))
      (by rw [hf]; exact fun _ => id) (fun _ => id) rfl
  | complete hf hs => exact fair.complete sound hf hs inv
  | spoil hf hs => exact absurd hs (fair.completes sound hf)
  | purge hf hs | leave hf hs => exact fair.settle hf inv

/-- Every move with a nonce at hand keeps an upload fair. -/
theorem Fair.step {m : Move} (fair : Fair key owner items s p) (sound : Sound s) (drawn : m.Drawn)
    (h : step key owner now m s p = some (t, q)) : Fair key owner items t q := by
  cases m with
  | front => exact fair.front sound (stepFront_eq_some_iff.1 h)
  | worker n iv => exact fair.worker sound drawn (stepWorker_eq_some_iff.1 h)
  | accumulator =>
    obtain ⟨r, hr, heq⟩ := Option.map_eq_some_iff.1 h
    cases heq
    exact fair.accumulator (stepAccumulator_eq_some_iff.1 hr)

end Strongbox.Upload
