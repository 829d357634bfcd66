import Mathlib.Data.List.Nodup
import Mathlib.Data.List.Perm.Subperm
import Strongbox.Proofs.Download.Course
import Strongbox.Proofs.Pairs
import Strongbox.Proofs.Store.Resident

/-!
# What the reader of a download gets

Here the chunks of a file may be anything: some may be missing, or not open.

## Main definitions

* `Download.Intact`: all chunks of a file are there, and open.
* `Download.Delivering`: a download whose reader stays, with the rows it has sent and given up.
* `Download.Ending`: how the stream ends.

## Main statements

* `Download.Delivering.worker`, `Download.Delivering.closer`, `Download.Delivering.reader`: every
  move keeps to it.
* `Download.delivered_of_course`: the reader gets each chunk once at most, and all of them or a
  failure at the end.
-/

namespace Strongbox.Download

open Ledger Message

/-- All chunks of a file of `total` chunks are there, sealed in the one known way, and open. -/
def Intact (key : Key) (total : Nat) (rows : List Chunk) : Prop :=
  ∀ i < total, ∃ c ∈ rows, c.index = i ∧ c.algorithm = algorithmName ∧
    ∃ data, key.openWith c.iv c.ciphertext = .ok data

/-- What may be wrong with the chunks of a file, in words: a range has gaps, or a chunk is not
sealed in the one known way, or does not open. -/
inductive Amiss (key : Key) (total : Nat) (rows : List Chunk) : String → Prop where
  | lacking {range : Span} (start_le : range.start ≤ range.stop) (stop_le : range.stop ≤ total)
      (few : (rows.filter (·.index ∈ range)).length ≠ range.length) :
      Amiss key total rows ("chunks " ++ range.toText ++ ": found "
        ++ toString (rows.filter (·.index ∈ range)).length ++ " of " ++ toString range.length)
  | foreign {c : Chunk} (there : c ∈ rows) (lt : c.index < total)
      (unknown : c.algorithm ≠ algorithmName) :
      Amiss key total rows ("chunk " ++ toString c.index ++ " sealed with unsupported algorithm "
        ++ Text.quoted c.algorithm)
  | shut {c : Chunk} (there : c ∈ rows) (lt : c.index < total)
      (shut : ∀ data, key.openWith c.iv c.ciphertext ≠ .ok data) :
      Amiss key total rows ("chunk " ++ toString c.index ++ " failed authentication")

/-- A failure of the service that says what is wrong with the chunks. -/
def Blames (key : Key) (total : Nat) (rows : List Chunk) (f : Failure) : Prop :=
  f.code = .internal ∧ ∃ label text, f.message = label ++ text ∧ Amiss key total rows text

def Worker.due : Worker → List Nat
  | fetching range => range.indices
  | opening chunks => chunks.map (·.index)
  | sending frame others => frame.index.toUInt32.toNat :: others.map (·.index)
  | exited => []

/-- What a worker has in its hands comes from these rows. -/
def Worker.Carries (key : Key) (total : Nat) (rows : List Chunk) : Worker → Prop
  | fetching range => range.start ≤ range.stop ∧ range.stop ≤ total
  | opening chunks => ∀ c ∈ chunks, c ∈ rows ∧ c.index < total
  | sending frame others => (∃ c ∈ rows, c.index < total ∧ Brings key total c frame) ∧
      ∀ c ∈ others, c ∈ rows ∧ c.index < total
  | exited => True

def Distributor.ending (d : Distributor) : List Item :=
  match d.tail with
  | .ended => (Failure.collect d.failures).toList.map fun f => .error f.status
  | _ => []

/-- A download of `total` chunks from these rows, while its reader stays: it has sent the frames of
some rows, in order, and it has given up some indices. -/
structure Delivering (key : Key) (m : Metadata) (file : Int) (total : Nat) (rows : List Chunk)
    (d : Distributor) (sent : List Chunk) (frames : List Message.Chunk) (lost : List Nat) :
    Prop where
  file_eq : d.file = file
  total_eq : d.total = total
  stream : d.taken ++ d.queue = .ok (.metadata m) :: Upload.itemsOf frames ++ d.ending
  brought : List.Forall₂ (Brings key total) sent frames
  stored : ∀ c ∈ sent, c ∈ rows
  accounted : (sent.map (·.index) ++ d.workers.flatMap Worker.due ++ lost).Perm (List.range total)
  carried : ∀ w ∈ d.workers, w.Carries key total rows
  stopped : d.aborted = true → d.failures ≠ []
  resigned : lost ≠ [] → d.failures ≠ []
  stays : d.hungUp = false
  blamed : ∀ f ∈ d.failures, Blames key total rows f
  damaged : d.failures ≠ [] → ¬Intact key total rows
  left : d.tail ≠ .waiting → ∀ w ∈ d.workers, w = .exited
  reporting : ∀ status, d.tail = .reporting status →
    ∃ f, Failure.collect d.failures = some f ∧ status = f.status

/-- How a stream ends: with all chunks, or with one status that tells of all failures met. -/
inductive Ending (key : Key) (total : Nat) (rows : List Chunk) (fs : List Failure)
    (sent : List Chunk) : List Item → Prop where
  | whole (intact : Intact key total rows) (content : fs = [])
      (all : (sent.map (·.index)).Perm (List.range total)) : Ending key total rows fs sent []
  | broken {st : Status} (damaged : ¬Intact key total rows) (noted : fs ≠ [])
      (code_eq : st.code = .internal) (lists : st.Lists fs)
      (blamed : ∀ f ∈ fs, Blames key total rows f) :
      Ending key total rows fs sent [.error st]

/-! ## Fetching a range -/

section Fetching

variable {σ : Type} [Store σ] [Ledger σ] [LawfulStore σ] {key : Key} {file : Int} {total : Nat}
  {s u : σ} {range : Span} {fetched : List Chunk} (steady : Steady file s u)
  (start_le : range.start ≤ range.stop)

include steady start_le

/-- A range of the chunks of a file can be fetched, whatever the chunks are. -/
theorem Steady.chunks : ∃ fetched, Store.chunks u file range = .ok fetched ∧
    fetched.Perm ((rows s file).filter (·.index ∈ range)) := by
  obtain ⟨r, hr⟩ := Option.isSome_iff_exists.1 steady.known
  obtain ⟨fetched, h, perm, -⟩ := LawfulStore.chunks_known steady.sound hr start_le
  exact ⟨fetched, h, steady.rows_eq ▸ perm⟩

theorem Steady.mem_iff (h : Store.chunks u file range = .ok fetched) (c : Chunk) :
    c ∈ fetched ↔ c ∈ rows s file ∧ c.index ∈ range := by
  obtain ⟨fetched', h', perm⟩ := steady.chunks start_le
  cases h.symm.trans h'
  simp [perm.mem_iff]

theorem Steady.subperm (h : Store.chunks u file range = .ok fetched) :
    (fetched.map (·.index)).Subperm range.indices := by
  obtain ⟨fetched', h', perm⟩ := steady.chunks start_le
  cases h.symm.trans h'
  have nodup : ((rows s file).map (·.index)).Nodup :=
    steady.rows_eq ▸ LawfulStore.nodup_indices steady.sound
  apply List.Nodup.subperm
  · refine (perm.map _).nodup_iff.2 (List.Nodup.sublist ?_ nodup)
    exact List.filter_sublist.map _
  · intro i hi
    obtain ⟨c, hc, rfl⟩ := List.mem_map.1 hi
    exact Span.mem_indices.2 ((steady.mem_iff start_le h c).1 hc).2

/-- A range of as many chunks as it has indices has one for each. -/
theorem Steady.indices (h : Store.chunks u file range = .ok fetched)
    (length_eq : fetched.length = range.length) :
    (fetched.map (·.index)).Perm range.indices := by
  apply (steady.subperm start_le h).perm_of_length_le
  rw [List.length_map, Span.length_indices]
  exact Nat.le_of_eq length_eq.symm

/-- If all chunks are there, each range has as many as it has indices. -/
theorem Steady.length_eq (h : Store.chunks u file range = .ok fetched)
    (stop_le : range.stop ≤ total) (intact : Intact key total (rows s file)) :
    fetched.length = range.length := by
  have le := (steady.subperm start_le h).length_le
  have ge : range.indices.Subperm (fetched.map (·.index)) := by
    apply List.Nodup.subperm List.nodup_range'
    intro i hi
    have within := Span.mem_indices.1 hi
    obtain ⟨c, hc, rfl, -⟩ := intact i (Nat.lt_of_lt_of_le within.2 stop_le)
    exact List.mem_map_of_mem ((steady.mem_iff start_le h c).2 ⟨hc, within⟩)
  have ge := ge.length_le
  simp only [List.length_map, Span.length_indices] at le ge
  exact Nat.le_antisymm le ge

omit start_le in
theorem Steady.blames_lacking (h : Store.chunks u file range = .ok fetched)
    (within : (Worker.fetching range).Carries key total (rows s file))
    (short : fetched.length ≠ range.length) :
    Blames key total (rows s file) (.persistence ("chunks " ++ range.toText ++ ": found "
      ++ toString fetched.length ++ " of " ++ toString range.length)) := by
  obtain ⟨fetched', h', perm⟩ := steady.chunks within.1
  cases h.symm.trans h'
  rw [perm.length_eq] at short ⊢
  exact ⟨rfl, "persistence error: ", _, rfl, .lacking within.1 within.2 short⟩

end Fetching

theorem blames_of_openChunk {key : Key} {total : Nat} {rows : List Chunk} {c : Chunk} {f : Failure}
    (there : c ∈ rows) (lt : c.index < total) (h : openChunk key total c = .error f) :
    Blames key total rows f := by
  unfold openChunk at h
  split at h
  · rename_i unknown
    cases h
    exact ⟨rfl, "decryption failed: ", _, rfl, .foreign there lt unknown⟩
  · split at h <;> rename_i shut
    · cases h
    · cases h
      refine ⟨rfl, "decryption failed: ", _, rfl, .shut there lt fun data opens => ?_⟩
      cases shut.symm.trans opens

theorem not_intact_of_openChunk {key : Key} {total : Nat} {rows : List Chunk} {c : Chunk}
    {f : Failure} (nodup : (rows.map (·.index)).Nodup) (hc : c ∈ rows) (lt : c.index < total)
    (h : openChunk key total c = .error f) : ¬Intact key total rows := by
  intro intact
  obtain ⟨c', hc', same, known, data, opens⟩ := intact c.index lt
  cases List.inj_on_of_nodup_map nodup hc' hc same
  unfold openChunk at h
  rw [if_neg (Decidable.not_not.2 known), opens] at h
  cases h

/-! ## Moves -/

section Moves

variable {key : Key} {m : Metadata} {file : Int} {total : Nat} {rows : List Chunk}
  {d : Distributor} {sent : List Chunk} {frames : List Message.Chunk} {lost : List Nat} {n : Nat}
  {v : Worker}

/-- A worker elsewhere, with what it has sent, given up and found amiss. -/
theorem Delivering.moved (del : Delivering key m file total rows d sent frames lost)
    (hw : d.workers[n]? = some v) (present : v ≠ .exited) (w : Worker) (sent' : List Chunk)
    (frames' : List Message.Chunk) (lost' : List Nat) (fault : Option Failure) (aborted : Bool)
    (brought : List.Forall₂ (Brings key total) sent' frames') (stored : ∀ c ∈ sent', c ∈ rows)
    (accounted : (sent'.map (·.index) ++ w.due ++ lost').Perm v.due)
    (carried : w.Carries key total rows)
    (blamed : ∀ f ∈ fault, Blames key total rows f ∧ ¬Intact key total rows)
    (stopped : aborted = true ∨ lost' ≠ [] → d.aborted = true ∨ fault.isSome) :
    Delivering key m file total rows
      ({ d with
        queue := d.queue ++ Upload.itemsOf frames', failures := d.failures ++ fault.toList,
        aborted := aborted }.setWorker n w)
      (sent ++ sent') (frames ++ frames') (lost ++ lost') := by
  -- The end of the stream comes when all workers have left, and this one has not.
  have waiting : d.tail = .waiting := by
    by_contra gone
    exact present (del.left gone v (List.mem_of_getElem? hw))
  have longer : d.failures ≠ [] → d.failures ++ fault.toList ≠ [] := by
    intro some_failed none_failed
    exact some_failed (List.append_eq_nil_iff.1 none_failed).1
  have failed : d.aborted = true ∨ fault.isSome → d.failures ++ fault.toList ≠ [] := by
    rintro (stop | some)
    · exact longer (del.stopped stop)
    · obtain ⟨f, rfl⟩ := Option.isSome_iff_exists.1 some
      simp
  constructor
  case file_eq => exact del.file_eq
  case total_eq => exact del.total_eq
  case stream =>
    have := del.stream
    simp only [Distributor.setWorker, Distributor.ending, waiting, List.append_nil] at this ⊢
    rw [← List.append_assoc, this]
    simp [Upload.itemsOf]
  case brought => exact List.rel_append del.brought brought
  case stored => exact fun c hc => (List.mem_append.1 hc).elim (del.stored c) (stored c)
  case accounted =>
    apply perm_iff_sumOver.2
    intro measure
    have before := perm_iff_sumOver.1 del.accounted measure
    have here := perm_iff_sumOver.1 accounted measure
    have there := sumOver_set (fun w => sumOver measure w.due) w hw
    simp only [Distributor.setWorker, List.map_append, sumOver_append, sumOver_flatMap] at *
    omega
  case carried =>
    exact fun u hu => (List.mem_or_eq_of_mem_set hu).elim (del.carried u) fun same => same ▸ carried
  case stopped => exact fun stop => failed (stopped (.inl stop))
  case resigned =>
    intro some_lost
    rw [ne_eq, List.append_eq_nil_iff, not_and_or] at some_lost
    exact some_lost.elim (fun old => longer (del.resigned old))
      fun new => failed (stopped (.inr new))
  case stays => exact del.stays
  case blamed =>
    intro f hf
    rcases List.mem_append.1 hf with old | new
    · exact del.blamed f old
    · exact (blamed f (Option.mem_toList.1 new)).1
  case damaged =>
    intro some_failed
    cases fault with
    | none => exact del.damaged (by simpa [Distributor.setWorker] using some_failed)
    | some f => exact (blamed f rfl).2
  case left => exact fun gone => absurd waiting gone
  case reporting =>
    intro status hs
    rw [show d.tail = .reporting status from hs] at waiting
    cases waiting

/-- The stream is what it was, and so are the frames that were sent. -/
theorem Delivering.elsewhere (del : Delivering key m file total rows d sent frames lost)
    (hw : d.workers[n]? = some v) (present : v ≠ .exited) (w : Worker)
    (accounted : w.due.Perm v.due) (carried : w.Carries key total rows) :
    Delivering key m file total rows (d.setWorker n w) sent frames lost := by
  have accounted : (([] : List Chunk).map Chunk.index ++ w.due ++ []).Perm v.due := by
    simpa using accounted
  simpa [Upload.itemsOf] using del.moved hw present w [] [] [] none d.aborted .nil
    (by simp) accounted carried (by simp) fun h => h.elim .inl fun h => absurd rfl h

/-- A worker that leaves gives up what it has in its hands. -/
theorem Delivering.given_up (del : Delivering key m file total rows d sent frames lost)
    (hw : d.workers[n]? = some v) (present : v ≠ .exited) (stopped : d.aborted = true) :
    Delivering key m file total rows (d.setWorker n .exited) sent frames (lost ++ v.due) := by
  simpa [Upload.itemsOf] using del.moved hw present .exited [] [] v.due none d.aborted
    .nil (by simp) (.refl _) trivial (by simp) fun _ => .inl stopped

/-- A worker that fails gives up what it has in its hands, and stops the others. -/
theorem Delivering.failed (del : Delivering key m file total rows d sent frames lost)
    (hw : d.workers[n]? = some v) (present : v ≠ .exited) {f : Failure}
    (blames : Blames key total rows f) (damaged : ¬Intact key total rows) :
    Delivering key m file total rows (d.fail n f) sent frames (lost ++ v.due) := by
  have blamed : ∀ g ∈ some f, Blames key total rows g ∧ ¬Intact key total rows := by
    rintro g ⟨⟩
    exact ⟨blames, damaged⟩
  simpa [Upload.itemsOf, Distributor.fail, Distributor.leave] using
    del.moved hw present .exited [] [] v.due (some f) true .nil (by simp) (.refl _) trivial blamed
      fun _ => .inr rfl

end Moves

section Step

variable {σ : Type} [Store σ] [Ledger σ] [LawfulStore σ] {key : Key} {m : Metadata} {file : Int}
  {total : Nat} {s u : σ} {d e : Distributor} {sent : List Chunk}
  {frames : List Message.Chunk} {lost : List Nat} {n : Nat} {fault : Option Failure}

/-- Every move of a worker keeps to what is delivered, and notes what it has found amiss. -/
theorem Delivering.worker (del : Delivering key m file total (rows s file) d sent frames lost)
    (steady : Steady file s u) (total_le : total ≤ Word.count32)
    (move : WorkerMove key u d n fault e) :
    ∃ sent' frames' lost', Delivering key m file total (rows s file) e sent' frames' lost' := by
  have nodup : ((rows s file).map (·.index)).Nodup :=
    steady.rows_eq ▸ LawfulStore.nodup_indices steady.sound
  have holds : ∀ {v}, d.workers[n]? = some v → v.Carries key total (rows s file) := fun hw =>
    del.carried _ (List.mem_of_getElem? hw)
  cases move with
  | crash hw hs | miss hw hs =>
    obtain ⟨fetched, h, -⟩ := steady.chunks (holds hw).1
    rw [del.file_eq, h] at hs
    cases hs
  | @lack range chunks f hw hs hc =>
    rw [del.file_eq] at hs
    obtain ⟨short, rfl⟩ := checkRange_eq_error_iff.1 hc
    exact ⟨_, _, _, del.failed hw (by simp) (steady.blames_lacking hs (holds hw) short)
      fun intact => short (steady.length_eq (holds hw).1 hs (holds hw).2 intact)⟩
  | @fetch range chunks hw hs hc =>
    rw [del.file_eq] at hs
    have indices := steady.indices (holds hw).1 hs (checkRange_eq_ok_iff.1 hc).1
    refine ⟨sent, frames, lost, del.elsewhere hw (by simp) (.opening chunks) indices ?_⟩
    intro c hc
    obtain ⟨there, within⟩ := (steady.mem_iff (holds hw).1 hs c).1 hc
    exact ⟨there, Nat.lt_of_lt_of_le within.2 (holds hw).2⟩
  | finish hw => exact ⟨sent, frames, lost, del.elsewhere hw (by simp) .exited (.refl _) trivial⟩
  | stop hw ha => exact ⟨sent, frames, _, del.given_up hw (by simp) ha⟩
  | @spoil c others f hw ha hc =>
    obtain ⟨there, lt⟩ := (holds hw) c List.mem_cons_self
    rw [del.total_eq] at hc
    exact ⟨_, _, _, del.failed hw (by simp) (blames_of_openChunk there lt hc)
      (not_intact_of_openChunk nodup there lt hc)⟩
  | @reveal c others frame hw ha hc =>
    obtain ⟨⟨there, lt⟩, rest⟩ := List.forall_mem_cons.1 (holds hw)
    rw [del.total_eq, openChunk_eq_ok_iff] at hc
    have index_eq : frame.index.toUInt32.toNat = c.index := by
      rw [hc.index_eq]
      exact Word.toNat_toUInt32_ofNat (Nat.lt_of_lt_of_le lt total_le)
    have accounted : (Worker.sending frame others).due.Perm (Worker.opening (c :: others)).due := by
      simp only [Worker.due, index_eq, List.map_cons]
      exact .refl _
    exact ⟨sent, frames, lost,
      del.elsewhere hw (by simp) _ accounted ⟨⟨c, there, lt, hc⟩, rest⟩⟩
  | quit hw hh =>
    rw [del.stays] at hh
    cases hh
  | @send frame others hw hh room =>
    obtain ⟨⟨c, there, lt, brings⟩, rest⟩ := holds hw
    have index_eq : frame.index.toUInt32.toNat = c.index := by
      rw [brings.index_eq]
      exact Word.toNat_toUInt32_ofNat (Nat.lt_of_lt_of_le lt total_le)
    have stored : ∀ c' ∈ [c], c' ∈ rows s file := by
      rintro c' hc'
      cases List.mem_singleton.1 hc'
      exact there
    have accounted : ([c].map Chunk.index ++ (Worker.opening others).due ++ []).Perm
        (Worker.sending frame others).due := by
      simp only [Worker.due, index_eq]
      simp
    refine ⟨sent ++ [c], frames ++ [frame], lost, ?_⟩
    simpa [Upload.itemsOf, Distributor.put] using del.moved hw (by simp) (.opening others) [c]
      [frame] [] none d.aborted (.cons brings .nil) stored accounted rest (by simp)
      fun h => h.elim .inl fun h => absurd rfl h

omit [Store σ] [Ledger σ] [LawfulStore σ] in
/-- The end of the stream comes after all frames, and it is told of all failures. -/
theorem Delivering.closer {rows : List Chunk}
    (del : Delivering key m file total rows d sent frames lost) (move : CloserMove d e) :
    Delivering key m file total rows e sent frames lost := by
  have stream := del.stream
  cases move with
  | doom ht gone hf =>
    simp only [Distributor.ending, ht] at stream
    exact { del with
      stream := stream
      left := fun _ => deserted_iff.1 gone
      reporting := fun status hs => by cases hs; exact ⟨_, hf, rfl⟩ }
  | close ht gone hf =>
    simp only [Distributor.ending, ht] at stream
    refine { del with
      stream := ?_
      left := fun _ => deserted_iff.1 gone
      reporting := fun status hs => by cases hs }
    simpa [Distributor.ending, hf, Failure.collect] using stream
  | quit ht hh =>
    rw [del.stays] at hh
    cases hh
  | @report status ht hh room =>
    obtain ⟨f, hf, rfl⟩ := del.reporting status ht
    refine { del with
      stream := ?_
      left := fun _ => del.left (by simp [ht])
      reporting := fun status hs => by cases hs }
    simp only [Distributor.ending, ht, List.append_nil] at stream
    simp [Distributor.put, Distributor.ending, hf, ← List.append_assoc, stream]

omit [Store σ] [Ledger σ] [LawfulStore σ] in
theorem Delivering.reader {rows : List Chunk} {item : Item} {rest : List Item}
    (del : Delivering key m file total rows d sent frames lost) (hq : d.queue = item :: rest) :
    Delivering key m file total rows { d with queue := rest, taken := d.taken ++ [item] } sent
      frames lost := by
  have stream : d.taken ++ [item] ++ rest =
      .ok (.metadata m) :: Upload.itemsOf frames ++ d.ending := by
    rw [← del.stream, hq, List.append_assoc, List.singleton_append]
  exact { del with stream := stream }

/-- Every move but that of a reader who leaves keeps to what is delivered. -/
theorem Delivering.step {mv : Move}
    (del : Delivering key m file total (rows s file) d sent frames lost) (steady : Steady file s u)
    (total_le : total ≤ Word.count32) (stays : mv ≠ .hangUp) (h : step key mv u d = some e) :
    ∃ sent' frames' lost', Delivering key m file total (rows s file) e sent' frames' lost' := by
  cases mv with
  | worker n => exact del.worker steady total_le (workerMove_of_step h)
  | closer => exact ⟨sent, frames, lost, del.closer (closerMove_of_step h)⟩
  | reader =>
    simp only [Download.step] at h
    split at h <;> cases h
    exact ⟨sent, frames, lost, del.reader ‹_›⟩
  | hangUp => exact absurd rfl stays

end Step

theorem failures_of_step {σ : Type} [Store σ] {key : Key} {u : σ} {d e : Distributor} {mv : Move}
    (h : step key mv u d = some e) : e.failures = d.failures ++ (mv.fault? key u d).toList := by
  have none_noted : e.failures = d.failures →
      e.failures = d.failures ++ (none : Option Failure).toList := fun same => by simp [same]
  cases mv with
  | worker n =>
    have move := workerMove_of_step h
    generalize Move.fault? key u d (.worker n) = fault at move
    cases move with
    | crash | miss | lack | spoil => rfl
    | fetch | finish | stop | reveal | quit | send => exact none_noted rfl
  | closer => cases closerMove_of_step h <;> exact none_noted rfl
  | reader =>
    simp only [step] at h
    split at h <;> cases h
    exact none_noted rfl
  | hangUp =>
    simp only [step] at h
    split at h <;> cases h
    exact none_noted rfl

section Course

variable {σ : Type} [Store σ] [Ledger σ] {key : Key} {m : Metadata} {file : Int} {total : Nat}
  {s : σ} {d₀ d : Distributor} {fs : List Failure}

theorem Course.failures_eq (course : Course key s file d₀ fs d) (content : d₀.failures = []) :
    d.failures = fs := by
  induction course with
  | refl => exact content
  | next course steady stays h ih => rw [failures_of_step h, ih]

variable [LawfulStore σ]

theorem Course.delivering (course : Course key s file d₀ fs d) (total_le : total ≤ Word.count32)
    (del : Delivering key m file total (rows s file) d₀ [] [] []) :
    ∃ sent frames lost, Delivering key m file total (rows s file) d sent frames lost := by
  induction course with
  | refl => exact ⟨[], [], [], del⟩
  | next course steady stays h ih =>
    obtain ⟨sent, frames, lost, del⟩ := ih
    exact del.step steady total_le stays h

theorem delivering_of_begin (key : Key) {workers : Nat} {r : Record} (sound : Sound s)
    (hr : record? s file = some r) (available : r.isAvailable = true)
    (workers_lt : workers < Word.count32) :
    ∃ d, begin workers r.owner file s = .ok d ∧ d.failures = [] ∧
      Delivering key r.metadata file r.totalChunks (rows s file) d [] [] [] := by
  obtain ⟨ranges, hranges⟩ := exists_partition r.totalChunks workers_lt
  obtain ⟨indices, within⟩ := indices_of_partition hranges
  have started := begin_of_available sound hr available workers
  rw [hranges] at started
  have due : (Distributor.start r ranges).workers.flatMap Worker.due =
      List.range r.totalChunks := by
    rw [← indices, ← pending_fetching, Distributor.start, List.flatMap_map, List.flatMap_map]
    rfl
  refine ⟨_, started, rfl, ?_⟩
  exact {
    file_eq := LawfulStore.id_eq sound hr
    total_eq := rfl
    stream := rfl
    brought := .nil
    stored := by simp
    accounted := by rw [due, List.map_nil, List.nil_append, List.append_nil]
    carried := fun w hw => by
      obtain ⟨range, hrange, rfl⟩ := List.mem_map.1 hw
      exact within range (List.mem_filter.1 hrange).1
    stopped := fun h => by cases h
    resigned := fun h => absurd rfl h
    stays := rfl
    blamed := fun f hf => by cases hf
    damaged := fun h => absurd rfl h
    left := fun h => absurd rfl h
    reporting := fun status hs => by cases hs }

end Course

/-! ## The whole stream -/

section Stream

variable {key : Key} {m : Metadata} {file : Int} {total : Nat} {rows : List Chunk} {d : Distributor}
  {sent : List Chunk} {frames : List Message.Chunk} {lost : List Nat}

/-- The frames tell the indices of their chunks, as words. -/
theorem indices_of_brought (brought : List.Forall₂ (Brings key total) sent frames)
    (small : ∀ c ∈ sent, c.index < Word.count32) :
    (frames.map fun frame => frame.index.toUInt32.toNat) = sent.map (·.index) := by
  induction brought with
  | nil => rfl
  | cons brings rest ih =>
    obtain ⟨here, later⟩ := List.forall_mem_cons.1 small
    rw [List.map_cons, List.map_cons, ih later, brings.index_eq, Word.toNat_toUInt32_ofNat here]

theorem Delivering.index_lt (del : Delivering key m file total rows d sent frames lost) :
    ∀ c ∈ sent, c.index < total := by
  intro c hc
  apply List.mem_range.1
  apply del.accounted.mem_iff.1
  exact List.mem_append_left _ (List.mem_append_left _ (List.mem_map_of_mem hc))

theorem Delivering.nodup (del : Delivering key m file total rows d sent frames lost)
    (total_le : total ≤ Word.count32) : (frames.map (·.index)).Nodup := by
  have apart : (sent.map (·.index)).Nodup := by
    have all := del.accounted.nodup_iff.2 List.nodup_range
    exact (all.sublist (List.sublist_append_left _ _)).sublist (List.sublist_append_left _ _)
  have words := indices_of_brought del.brought fun c hc =>
    Nat.lt_of_lt_of_le (del.index_lt c hc) total_le
  apply List.Nodup.of_map fun index : Int32 => index.toUInt32.toNat
  rw [List.map_map]
  exact words ▸ apart

/-- Once the end of the stream has come, it is the right one. -/
theorem Delivering.ends (del : Delivering key m file total rows d sent frames lost)
    (ended : d.tail = .ended) : Ending key total rows d.failures sent d.ending := by
  cases hf : Failure.collect d.failures with
  | some f =>
    have some_failed : d.failures ≠ [] := by
      intro none_failed
      rw [none_failed] at hf
      cases hf
    simp only [Distributor.ending, ended, hf, Option.toList_some, List.map_cons, List.map_nil]
    exact .broken (del.damaged some_failed) some_failed
      (Failure.code_of_collect hf fun g hg => (del.blamed g hg).1) (Failure.lists_of_collect hf)
      del.blamed
  | none =>
    have content := (Failure.collect_eq_none_iff _).1 hf
    have none_left : d.workers.flatMap Worker.due = [] :=
      flatMap_eq_nil_of_alike (del.left (by rw [ended]; nofun)) rfl
    have none_lost : lost = [] :=
      Decidable.not_not.1 fun some_lost => del.resigned some_lost content
    have all := del.accounted
    rw [none_left, none_lost, List.append_nil, List.append_nil] at all
    simp only [Distributor.ending, ended, hf, Option.toList_none, List.map_nil]
    refine .whole (fun i hi => ?_) content all
    obtain ⟨c, hc, rfl⟩ := List.mem_map.1 (all.mem_iff.2 (List.mem_range.2 hi))
    obtain ⟨frame, -, brings⟩ := exists_of_forall₂ del.brought hc
    exact ⟨c, del.stored c hc, rfl, brings.known, frame.data, brings.opens⟩

end Stream

/-- The stream of a download, while its reader stays and the chunks of the file do not change: the
metadata, and then the frames of some of the chunks, each once at most. It ends with all of them if
they are all there and open, and else with one failure of the service, after all frames, that tells
of every failure of a worker; until it has ended, somebody can move, and every move brings the end
nearer. -/
theorem delivered_of_course {σ : Type} [Store σ] [Ledger σ] [LawfulStore σ] (key : Key) {file : Int}
    {workers : Nat} {s : σ} {r : Record} (sound : Sound s) (hr : record? s file = some r)
    (available : r.isAvailable = true) (total_lt : r.totalChunks < Word.count32)
    (workers_lt : workers < Word.count32) :
    ∃ d₀, begin workers r.owner file s = .ok d₀ ∧ ∀ fs d, Course key s file d₀ fs d →
      ∃ sent frames ending,
        d.taken ++ d.queue = .ok (.metadata r.metadata) :: Upload.itemsOf frames ++ ending ∧
        List.Forall₂ (Brings key r.totalChunks) sent frames ∧
        (∀ c ∈ sent, c ∈ rows s file ∧ c.index < r.totalChunks) ∧
        (frames.map (·.index)).Nodup ∧
        (ending = [] ∨ Ending key r.totalChunks (rows s file) fs sent ending) ∧
        (d.isOver = true →
          d.queue = [] ∧ Ending key r.totalChunks (rows s file) fs sent ending) ∧
        (d.isOver = false → ∀ u : σ, ∃ m e, m ≠ .hangUp ∧ step key m u d = some e) ∧
        ∀ (u : σ) m e, step key m u d = some e → e.weight < d.weight := by
  have total_le := Nat.le_of_lt total_lt
  obtain ⟨d₀, started, content, del⟩ := delivering_of_begin key sound hr available workers_lt
  refine ⟨d₀, started, fun fs d course => ?_⟩
  obtain ⟨sent, frames, lost, del⟩ := course.delivering total_le del
  have noted := course.failures_eq content
  refine ⟨sent, frames, d.ending, del.stream, del.brought,
    fun c hc => ⟨del.stored c hc, del.index_lt c hc⟩, del.nodup total_le, ?_, fun final => ?_,
    fun waiting u => exists_move waiting del.stays, fun u m e => weight_step⟩
  · cases ht : d.tail with
    | ended => exact .inr (noted ▸ del.ends ht)
    | waiting | reporting => exact .inl (by simp only [Distributor.ending, ht])
  · obtain ⟨empty, ended⟩ := isOver_iff.1 final
    exact ⟨empty, noted ▸ del.ends ended⟩

theorem Course.of_foldlM {σ : Type} [Store σ] [Ledger σ] {key : Key} {file : Int} {s : σ}
    {d₀ d : Distributor} {moves : List Move} (steady : Steady file s s) (stays : .hangUp ∉ moves)
    (h : moves.foldlM (fun d m => step key m s d) d₀ = some d) :
    ∃ fs, Course key s file d₀ fs d := by
  suffices ∀ fs₁ d₁, Course key s file d₀ fs₁ d₁ →
      moves.foldlM (fun d m => step key m s d) d₁ = some d → ∃ fs, Course key s file d₀ fs d from
    this [] d₀ .refl h
  clear h
  induction moves with
  | nil =>
    rintro fs₁ d₁ course ⟨⟩
    exact ⟨fs₁, course⟩
  | cons m moves ih =>
    intro fs₁ d₁ course h
    obtain ⟨e, he, h⟩ := Option.bind_eq_some_iff.1 h
    rw [List.mem_cons, not_or] at stays
    exact ih stays.2 _ e (course.next steady (fun same => stays.1 same.symm) he) h

/-- A file of one chunk that is missing: the metadata are followed by a failure. -/
theorem delivered_of_missing_chunk :
    let key : Key := ⟨List.replicate 32 0, List.length_replicate⟩
    let r : Record := Record.completed (.ofDraft 1 5 { totalChunks := 1 } default []) 0
    let s : Resident := { files := [⟨r, []⟩], lastFile := 1 }
    ∃ d₀ fs d st, begin 1 5 1 s = .ok d₀ ∧ Course key s 1 d₀ fs d ∧ d.isOver = true ∧
      d.taken = [.ok (.metadata r.metadata), .error st] ∧ fs ≠ [] ∧ st.code = .internal ∧
      st.Lists fs ∧ ∀ f ∈ fs, Blames key 1 [] f := by
  intro key r s
  have sound : Sound s := ⟨by decide, by decide, by decide⟩
  have hr : Ledger.record? s 1 = some r := rfl
  have steady : Steady 1 s s := ⟨sound, rfl, rfl⟩
  have one_lt : 1 < Word.count32 := by decide
  have served : ((begin 1 5 1 s).toOption.bind fun d =>
      ([.worker 0, .closer, .closer, .reader, .reader].foldlM (fun d m => step key m s d) d).map
        (·.isOver)) = some true := by decide +kernel
  obtain ⟨d₀, started, delivers⟩ := delivered_of_course key sound hr rfl one_lt one_lt
  rw [show begin 1 5 1 s = .ok d₀ from started] at served
  obtain ⟨d, hd, final⟩ := Option.map_eq_some_iff.1 served
  obtain ⟨fs, course⟩ := Course.of_foldlM steady (by decide) hd
  obtain ⟨sent, frames, ending, stream, brought, stored, -, -, ends, -⟩ := delivers fs d course
  obtain ⟨empty, ending_eq⟩ := ends final
  have none_sent : sent = [] :=
    List.eq_nil_iff_forall_not_mem.2 fun c hc => by cases (stored c hc).1
  subst none_sent
  cases brought
  rw [empty, List.append_nil] at stream
  cases ending_eq with
  | whole intact =>
    obtain ⟨c, hc, -⟩ := intact 0 Nat.one_pos
    cases hc
  | broken damaged noted code_eq lists blamed =>
    exact ⟨d₀, fs, d, _, started, course, final, stream, noted, code_eq, lists, blamed⟩

end Strongbox.Download
