import Strongbox.Fetch
import Strongbox.Proofs.Download.Course
import Strongbox.Proofs.Receiving
import Strongbox.Proofs.Traffic.Lasting

/-!
# What a fetch brings
-/

namespace Strongbox.Fetch

open Ledger Message

variable {σ : Type} {t : Transfer} {z y : Fetch σ} {e : Event} {es : List Event}
  {d d' : Download.Distributor}

theorem download?_eq_some_iff :
    z.download? = some d ↔ z.traffic.calls[z.call]? = some (.downloading d) := by
  unfold download?
  split <;> grind

theorem download?_moved (hd : z.download? = some d) : (z.moved d').download? = some d' :=
  download?_eq_some_iff.2 <|
    (Traffic.getElem?_moveTo (download?_eq_some_iff.1 hd) z.call).trans (if_pos rfl)

theorem dest_deliver (z : Fetch σ) (item : Item) : (z.deliver item).dest = z.dest := by
  unfold deliver
  split <;> rfl

theorem traffic_deliver (z : Fetch σ) (item : Item) : (z.deliver item).traffic = z.traffic := by
  unfold deliver
  split <;> rfl

theorem download?_deliver (z : Fetch σ) (item : Item) :
    (z.deliver item).download? = z.download? := by
  unfold deliver
  split <;> rfl

theorem deliver_first (hr : z.reception = none) (item : Item) :
    ((z.moved d').deliver item).reception =
      some (Receiving.begin z.writers z.drawn z.dest [item] z.ground) := by
  simp only [deliver, moved, hr]

theorem deliver_next {a : Receiving.Announcement} {r : Receiving.Receiver}
    (hr : z.reception = some (.ok (a, r))) (item : Item) :
    ((z.moved d').deliver item).reception =
      some (.ok (a, { r with inbound := r.inbound ++ [item] })) := by
  simp only [deliver, moved, hr]

theorem ended_iff (hd : z.download? = some d) : z.ended = true ↔ d.isOver = true := by
  simp only [ended, hd]

/-! ## A bound on the moves left -/

def receptionWeight (z : Fetch σ) : Nat :=
  match z.reception with
  | none => 2 * max z.writers 1 + 6
  | some (.error _) => 0
  | some (.ok (_, r)) => r.weight

/-- A bound on the moves left. An item that is carried across weighs more with the distributor than
all the moves that it makes the receiver. -/
def weight (z : Fetch σ) : Nat :=
  8 * (z.download?.map Download.Distributor.weight).getD 0 + z.receptionWeight

theorem weight_eq (hd : z.download? = some d) : z.weight = 8 * d.weight + z.receptionWeight := by
  rw [weight, hd]
  rfl

/-! ## Events -/

variable [Store σ]

/-- What can come of an event in which no work fails, one case for each. -/
inductive Advance (t : Transfer) (z : Fetch σ) : Event → Fetch σ → Prop where
  | serve {e : Event} {m : Download.Move} {d d' : Download.Distributor} (serves : Download.Serves m)
      (own : e.isOwn = true) (hd : z.download? = some d)
      (h : Download.step t.key m z.traffic.store d = some d') : Advance t z e (z.moved d')
  | carry {d : Download.Distributor} {item : Item} {rest : List Item} (hd : z.download? = some d)
      (opened : d.hungUp = false) (hq : d.queue = item :: rest) :
      Advance t z .carry
        ((z.moved { d with queue := rest, taken := d.taken ++ [item] }).deliver item)
  | hangUp {d : Download.Distributor} (hd : z.download? = some d) (shut : z.shut = true)
      (opened : d.hungUp = false) :
      Advance t z .hangUp (z.moved { d with hungUp := true, queue := [] })
  | conclude {m : Receiving.Move} (hr : z.reception = none) (ended : z.ended = true) :
      Advance t z (.receive m)
        { z with reception := some (Receiving.begin z.writers z.drawn z.dest [] z.ground) }
  | receive {m : Receiving.Move} {a : Receiving.Announcement} {r r' : Receiving.Receiver}
      (hr : z.reception = some (.ok (a, r))) (works : m.works = true)
      (ready : m.isFront = true → r.awaits = true → z.ended = true)
      (h : Receiving.step m r = some r') :
      Advance t z (.receive m) { z with reception := some (.ok (a, r')) }
  | other {e : Traffic.Event} {w : Traffic σ} (other : e.call? ≠ some z.call)
      (h : Traffic.step t e z.traffic = some w) : Advance t z (.other e) { z with traffic := w }

theorem advance_of_step (works : e.works = true) (h : step t e z = some y) : Advance t z e y := by
  cases e with
  | fetch n =>
    obtain ⟨d, hd, h⟩ := Option.bind_eq_some_iff.1 h
    obtain ⟨d', hstep, rfl⟩ := Option.map_eq_some_iff.1 h
    exact .serve (.worker n) rfl hd hstep
  | close =>
    obtain ⟨d, hd, h⟩ := Option.bind_eq_some_iff.1 h
    obtain ⟨d', hstep, rfl⟩ := Option.map_eq_some_iff.1 h
    exact .serve .closer rfl hd hstep
  | carry =>
    simp only [step] at h
    split at h
    · cases h
    · rename_i d hd
      split at h
      · rename_i item rest d' hq hstep
        cases h
        simp only [Download.step] at hstep
        split at hstep
        · rename_i item' rest' opened hq'
          cases hstep
          cases hq.symm.trans hq'
          exact .carry hd opened hq
        · cases hstep
      · cases h
  | hangUp =>
    simp only [step] at h
    split at h
    · rename_i shut
      obtain ⟨d, hd, h⟩ := Option.bind_eq_some_iff.1 h
      obtain ⟨d', hstep, rfl⟩ := Option.map_eq_some_iff.1 h
      simp only [Download.step] at hstep
      split at hstep <;> cases hstep
      exact .hangUp hd shut (Bool.not_eq_true _ ▸ ‹_›)
    · cases h
  | receive m =>
    simp only [step] at h
    split at h
    · rename_i hr
      split at h <;> cases h
      rename_i ready
      simp only [Bool.and_eq_true] at ready
      exact .conclude hr ready.2
    · cases h
    · rename_i a r hr
      split at h
      · cases h
      · rename_i ready
        obtain ⟨r', hstep, rfl⟩ := Option.map_eq_some_iff.1 h
        refine .receive hr works (fun hm ha => ?_) hstep
        simpa [hm, ha] using ready
  | other e =>
    simp only [step] at h
    split at h
    · cases h
    · obtain ⟨w, hw, rfl⟩ := Option.map_eq_some_iff.1 h
      exact .other ‹_› hw

/-- What else happens in the traffic leaves the download where it is. -/
theorem download?_beside {e : Traffic.Event} {w : Traffic σ} (hd : z.download? = some d)
    (other : e.call? ≠ some z.call) (h : Traffic.step t e z.traffic = some w) :
    ({ z with traffic := w } : Fetch σ).download? = some d := by
  have here := download?_eq_some_iff.1 hd
  obtain ⟨lt, -⟩ := List.getElem?_eq_some_iff.1 here
  exact download?_eq_some_iff.2 ((Traffic.calls_beside h other lt).trans here)

theorem traffic_moved {m : Download.Move} (hd : z.download? = some d)
    (h : Download.step t.key m z.traffic.store d = some d') :
    Traffic.step t (.download z.call m) z.traffic = some (z.moved d').traffic := by
  simp only [Traffic.step, download?_eq_some_iff.1 hd, h]
  rfl

theorem Advance.traffic (h : Advance t z e y) :
    y.traffic = z.traffic ∨ ∃ e', Traffic.step t e' z.traffic = some y.traffic := by
  cases h with
  | serve serves own hd h => exact .inr ⟨_, traffic_moved hd h⟩
  | @carry d item rest hd opened hq =>
    rw [traffic_deliver]
    refine .inr ⟨.download z.call .reader, traffic_moved hd ?_⟩
    simp only [Download.step, opened, hq]
  | hangUp hd shut opened =>
    refine .inr ⟨.download z.call .hangUp, traffic_moved hd ?_⟩
    simp only [Download.step, opened]
    rfl
  | conclude | receive => exact .inl rfl
  | other other h => exact .inr ⟨_, h⟩

/-! ## Where a fetch may stand -/

/-- Where a fetch of a file that holds a payload may stand. -/
inductive Underway (key : Key) (payload : Bytes) (plan : Plan) (m : Metadata) (file : Int)
    (folder : Path) (name : String) (z : Fetch σ) : Prop where
  | waiting {d : Download.Distributor} {frames : List Message.Chunk} (hd : z.download? = some d)
      (serving : Download.Serving key payload plan m file d frames) (untouched : d.taken = [])
      (hr : z.reception = none) (fits : Crew.Fits z.writers)
      (found : z.ground.folder z.dest = .ok folder)
      (empty : ∀ other, z.ground.get? (folder ++ [other]) = none)
  | receiving {d : Download.Distributor} {frames got coming : List Message.Chunk}
      {r : Receiving.Receiver} (hd : z.download? = some d)
      (serving : Download.Serving key payload plan m file d frames)
      (taken : d.taken = .ok (.metadata m) :: Upload.itemsOf (got ++ coming))
      (hr : z.reception = some (.ok (⟨m, plan, name⟩, r)))
      (standing : Receiving.Standing payload plan folder name r got coming)
  | left {d : Download.Distributor} {got coming : List Message.Chunk} {r : Receiving.Receiver}
      (hd : z.download? = some d) (gone : d.hungUp = true)
      (hr : z.reception = some (.ok (⟨m, plan, name⟩, r))) (shut : r.front.reads = false)
      (standing : Receiving.Standing payload plan folder name r got coming)

variable [Ledger σ] [LawfulStore σ] {owner file : Int} {draft : Draft} {payload : Bytes}
  {plan : Plan} {m : Metadata} {folder : Path} {name : String}

section Step

variable (underway : Underway t.key payload plan m file folder name z)

include underway

omit [Store σ] [Ledger σ] [LawfulStore σ] in
theorem Underway.exists_download : ∃ d, z.download? = some d := by
  cases underway with
  | waiting hd | receiving hd | left hd => exact ⟨_, hd⟩

omit [Store σ] [Ledger σ] [LawfulStore σ] in
/-- The stream does not end before its first item has been carried across. -/
theorem Underway.not_ended (hr : z.reception = none) : ¬z.ended = true := by
  intro ended
  cases underway with
  | waiting hd serving untouched =>
    have all := (serving.all_taken ((ended_iff hd).1 ended)).1
    rw [untouched] at all
    cases all
  | receiving hd serving taken hr' | left hd gone hr' => cases hr.symm.trans hr'

omit [Store σ] [Ledger σ] [LawfulStore σ] in
/-- An item is carried across, and makes the receiver a few more moves. -/
theorem Underway.carry {item : Item} {rest : List Item} (announced : Upload.Announces m plan)
    (safe : Name.safe m.filename = .ok name) (hd : z.download? = some d) (opened : d.hungUp = false)
    (hq : d.queue = item :: rest) :
    let y := (z.moved { d with queue := rest, taken := d.taken ++ [item] }).deliver item
    Underway t.key payload plan m file folder name y ∧
      y.receptionWeight ≤ z.receptionWeight + 7 := by
  intro y
  have here := (download?_deliver (z.moved { d with queue := rest, taken := d.taken ++ [item] })
    item).trans (download?_moved hd)
  cases underway with
  | waiting hd' serving untouched hr fits found empty =>
    cases hd.symm.trans hd'
    have stream := serving.stream
    rw [untouched, hq, List.nil_append] at stream
    obtain ⟨rfl, rfl⟩ := List.cons.inj stream
    obtain ⟨r, begun, standing, weight_eq⟩ :=
      Receiving.exists_start z.drawn payload announced safe fits found empty
    have hr' : y.reception = _ := (deliver_first hr _).trans (congrArg some begun)
    refine ⟨.receiving here (serving.reader hq) (by rw [untouched]; rfl) hr' standing, ?_⟩
    simp only [receptionWeight, hr, hr']
    omega
  | @receiving d' frames got coming r hd' serving taken hr standing =>
    cases hd.symm.trans hd'
    have stream := serving.stream
    rw [taken, hq, List.cons_append] at stream
    obtain ⟨front, back, rfl, front_eq, back_eq⟩ :=
      List.map_eq_append_iff.1 (List.cons.inj stream).2.symm
    cases Upload.itemsOf_inj front_eq
    cases back with
    | nil => cases back_eq
    | cons c others =>
      obtain ⟨rfl, rfl⟩ := List.cons.inj back_eq
      have cut := serving.cut c (List.mem_append_right _ List.mem_cons_self)
      -- No index is served twice, so the receiver will not turn the frame away.
      have nodup : ((got ++ (coming ++ [c])).map (·.index.toInt.toNat)).Nodup := by
        have all := serving.accounted.nodup_iff.2 List.nodup_range
        have sent := (List.nodup_append.1 all).1
        rw [show got ++ coming ++ c :: others = got ++ (coming ++ [c]) ++ others by simp,
          List.map_append] at sent
        exact (List.nodup_append.1 sent).1
      have hr' : y.reception = _ := deliver_next hr _
      refine ⟨.receiving here (serving.reader hq) ?_ hr' (standing.deliver cut nodup), ?_⟩
      · simp [taken, Upload.itemsOf]
      · simp only [receptionWeight, hr, hr']
        exact Receiving.weight_deliver r _
  | left hd' gone hr shut standing =>
    cases hd.symm.trans hd'
    rw [opened] at gone
    cases gone

omit [Store σ] [Ledger σ] [LawfulStore σ] in
theorem Underway.receive {mv : Receiving.Move} {a : Receiving.Announcement}
    {r r' : Receiving.Receiver} (named : isEntryName name = true)
    (size_eq : plan.size = payload.length) (total_le : plan.total ≤ Word.maxInt32)
    (hr : z.reception = some (.ok (a, r))) (works : mv.works = true)
    (ready : mv.isFront = true → r.awaits = true → z.ended = true)
    (h : Receiving.step mv r = some r') :
    Underway t.key payload plan m file folder name { z with reception := some (.ok (a, r')) } := by
  cases underway with
  | waiting hd serving untouched hr' => cases hr.symm.trans hr'
  | @receiving d frames got coming _ hd serving taken hr' standing =>
    cases hr.symm.trans hr'
    have all : mv.isFront = true → r.awaits = true →
        (got.map (·.index.toInt.toNat)).Perm (List.range plan.total) := by
      intro front waits
      obtain ⟨all_taken, perm⟩ := serving.all_taken ((ended_iff hd).1 (ready front waits))
      rw [taken, standing.coming_nil waits, List.append_nil] at all_taken
      rwa [Upload.itemsOf_inj (List.cons.inj all_taken).2]
    obtain ⟨got', coming', same, standing'⟩ :=
      standing.step size_eq total_le named works all h
    exact .receiving hd serving (same ▸ taken) rfl standing'
  | @left d got coming _ hd gone hr' shut standing =>
    cases hr.symm.trans hr'
    have busy : r.awaits = true → (got.map (·.index.toInt.toNat)).Perm (List.range plan.total) := by
      intro waits
      rw [Receiving.reads_of_awaits waits] at shut
      cases shut
    obtain ⟨got', coming', -, standing'⟩ :=
      standing.step size_eq total_le named works (fun _ => busy) h
    refine .left hd gone rfl ?_ standing'
    cases reads : r'.front.reads with
    | false => rfl
    | true =>
      rw [Receiving.reads_of_step h reads] at shut
      cases shut

variable (announced : Upload.Announces m plan) (safe : Name.safe m.filename = .ok name)
  (named : isEntryName name = true) (size_eq : plan.size = payload.length)
  (total_le : plan.total ≤ Word.maxInt32) (sound : Sound z.traffic.store)
  (held : Upload.Held t.key owner ⟨draft, plan⟩ file true z.traffic.store (plan.pieces payload))

include announced safe named size_eq total_le sound held

/-- Every event in which no work fails keeps a fetch where it should be. -/
theorem Underway.step (h : Advance t z e y) :
    Underway t.key payload plan m file folder name y := by
  cases h with
  | serve serves own hd h =>
    cases underway with
    | waiting hd' serving untouched hr fits found empty =>
      cases hd.symm.trans hd'
      obtain ⟨frames', serving', taken_eq⟩ := serving.step sound total_le held serves h
      exact .waiting (download?_moved hd) serving' (taken_eq.trans untouched) hr fits found empty
    | receiving hd' serving taken hr standing =>
      cases hd.symm.trans hd'
      obtain ⟨frames', serving', taken_eq⟩ := serving.step sound total_le held serves h
      exact .receiving (download?_moved hd) serving' (taken_eq.trans taken) hr standing
    | left hd' gone hr shut standing =>
      cases hd.symm.trans hd'
      exact .left (download?_moved hd) ((serves.hungUp_eq h).trans gone) hr shut standing
  | carry hd opened hq => exact (underway.carry announced safe hd opened hq).1
  | hangUp hd shut opened =>
    cases underway with
    | waiting hd' serving untouched hr => simp [Fetch.shut, hr] at shut
    | receiving hd' serving taken hr standing =>
      refine .left (download?_moved hd) rfl hr ?_ standing
      simpa [Fetch.shut, hr] using shut
    | left hd' gone hr shut standing =>
      cases hd.symm.trans hd'
      rw [opened] at gone
      cases gone
  | conclude hr ended => exact absurd ended (underway.not_ended hr)
  | receive hr works ready h => exact underway.receive named size_eq total_le hr works ready h
  | other other h =>
    cases underway with
    | waiting hd serving untouched hr fits found empty =>
      exact .waiting (download?_beside hd other h) serving untouched hr fits found empty
    | receiving hd serving taken hr standing =>
      exact .receiving (download?_beside hd other h) serving taken hr standing
    | left hd gone hr shut standing =>
      exact .left (download?_beside hd other h) gone hr shut standing

end Step

/-! ## Progress -/

omit [Ledger σ] [LawfulStore σ] in
theorem exists_carry (hd : z.download? = some d) (opened : d.hungUp = false) (wait : d.queue ≠ []) :
    ∃ y, Fetch.step t .carry z = some y := by
  obtain ⟨item, rest, hq⟩ := List.exists_cons_of_ne_nil wait
  exact ⟨(z.moved { d with queue := rest, taken := d.taken ++ [item] }).deliver item,
    by simp only [Fetch.step, hd, hq, Download.step, opened]⟩

omit [Ledger σ] [LawfulStore σ] in
theorem exists_receive {mv : Receiving.Move} {a : Receiving.Announcement}
    {r q : Receiving.Receiver} (hr : z.reception = some (.ok (a, r)))
    (h : Receiving.step mv r = some q) (ready : r.awaits = true → z.ended = true) :
    ∃ y, Fetch.step t (.receive mv) z = some y := by
  refine ⟨{ z with reception := some (.ok (a, q)) }, ?_⟩
  have free : ¬(mv.isFront && r.awaits && !z.ended) = true := by
    simp only [Bool.and_eq_true, Bool.not_eq_true']
    rintro ⟨⟨-, waits⟩, early⟩
    rw [ready waits] at early
    cases early
  simp only [Fetch.step, hr, if_neg free, h]
  rfl

omit [Store σ] [Ledger σ] [LawfulStore σ] in
theorem unfinished_of_answer? {a : Receiving.Announcement} {r : Receiving.Receiver}
    (hr : z.reception = some (.ok (a, r))) (unanswered : z.answer? = none)
    (v : Except Failure Nat) : r.front ≠ .finished v := by
  intro hf
  cases v <;> simp [answer?, hr, hf] at unanswered

section Progress

variable (underway : Underway t.key payload plan m file folder name z)

include underway

omit [Ledger σ] [LawfulStore σ] in
/-- The moves of the download lower the weight, and nothing raises it. -/
theorem Underway.lighter (announced : Upload.Announces m plan)
    (safe : Name.safe m.filename = .ok name) (h : Advance t z e y) :
    y.weight + e.isOwn.toNat ≤ z.weight := by
  cases h with
  | @serve e mv d d' serves own hd h =>
    have less := Download.weight_step h
    rw [weight_eq hd, weight_eq (download?_moved hd), own, Bool.toNat_true]
    show 8 * d'.weight + z.receptionWeight + 1 ≤ _
    omega
  | @carry d item rest hd opened hq =>
    have h : Download.step t.key .reader z.traffic.store d =
        some { d with queue := rest, taken := d.taken ++ [item] } := by
      simp only [Download.step, opened, hq]
    have less := Download.weight_step h
    have here := (download?_deliver (z.moved { d with queue := rest, taken := d.taken ++ [item] })
      item).trans (download?_moved hd)
    have more := (underway.carry announced safe hd opened hq).2
    rw [weight_eq hd, weight_eq here]
    show _ + 1 ≤ _
    omega
  | @hangUp d hd shut opened =>
    have h : Download.step t.key .hangUp z.traffic.store d =
        some { d with hungUp := true, queue := [] } := by
      simp only [Download.step, opened]
      rfl
    have less := Download.weight_step h
    rw [weight_eq hd, weight_eq (download?_moved hd)]
    show 8 * Download.Distributor.weight _ + z.receptionWeight + 1 ≤ _
    omega
  | conclude hr ended => exact absurd ended (underway.not_ended hr)
  | @receive mv a r r' hr works ready h =>
    have less := Receiving.weight_step h
    have before : z.receptionWeight = r.weight := by simp only [receptionWeight, hr]
    show 8 * (z.download?.map Download.Distributor.weight).getD 0 + r'.weight + 1 ≤
      8 * (z.download?.map Download.Distributor.weight).getD 0 + z.receptionWeight
    omega
  | @other e w other h =>
    obtain ⟨d, hd⟩ := underway.exists_download
    rw [weight_eq hd, weight_eq (download?_beside hd other h)]
    exact Nat.le_refl _

theorem Underway.moves (total_le : plan.total ≤ Word.maxInt32) (sound : Sound z.traffic.store)
    (held : Upload.Held t.key owner ⟨draft, plan⟩ file true z.traffic.store (plan.pieces payload))
    (unanswered : z.answer? = none) :
    ∃ e y, e.isOwn = true ∧ e.works = true ∧ Fetch.step t e z = some y := by
  have served : ∀ {d frames}, z.download? = some d →
      Download.Serving t.key payload plan m file d frames → d.isOver = false →
      ∃ e y, e.isOwn = true ∧ e.works = true ∧ Fetch.step t e z = some y := by
    intro d frames hd serving waiting
    rcases serving.moves sound total_le held waiting with wait | ⟨n, d', h⟩ | ⟨d', h⟩
    · obtain ⟨y, hy⟩ := exists_carry (t := t) hd serving.opened wait
      exact ⟨.carry, y, rfl, rfl, hy⟩
    · exact ⟨.fetch n, z.moved d', rfl, rfl, by simp only [Fetch.step, hd]; simp [Download.step, h]⟩
    · exact ⟨.close, z.moved d', rfl, rfl, by simp only [Fetch.step, hd]; simp [Download.step, h]⟩
  have early : z.reception = none → ¬z.ended = true := underway.not_ended
  cases underway with
  | @waiting d frames hd serving untouched hr =>
    refine served hd serving (Bool.not_eq_true _ ▸ ?_)
    intro final
    exact early hr ((ended_iff hd).2 final)
  | @receiving d frames got coming r hd serving taken hr standing =>
    have unfinished := unfinished_of_answer? hr unanswered
    cases waits : r.awaits with
    | false =>
      obtain ⟨mv, q, works, h⟩ := standing.moves unfinished
      obtain ⟨y, hy⟩ := exists_receive (t := t) hr h (by simp [waits])
      exact ⟨.receive mv, y, rfl, works, hy⟩
    | true =>
      cases final : d.isOver with
      | false => exact served hd serving final
      | true =>
        obtain ⟨y, hy⟩ := exists_receive (t := t) hr (Receiving.step_of_awaits waits)
          fun _ => (ended_iff hd).2 final
        exact ⟨.receive (.front none), y, rfl, rfl, hy⟩
  | @left d got coming r hd gone hr shut standing =>
    have unfinished := unfinished_of_answer? hr unanswered
    have busy : r.awaits = false := by
      cases waits : r.awaits with
      | false => rfl
      | true =>
        rw [Receiving.reads_of_awaits waits] at shut
        cases shut
    obtain ⟨mv, q, works, h⟩ := standing.moves unfinished
    obtain ⟨y, hy⟩ := exists_receive (t := t) hr h (by simp [busy])
    exact ⟨.receive mv, y, rfl, works, hy⟩

end Progress

omit [Store σ] [Ledger σ] [LawfulStore σ] in
/-- What the caller is told, and what stands in the folder by then. -/
theorem Underway.answer (underway : Underway t.key payload plan m file folder name z)
    {a : Except (Halt Failure) Delivery} (h : z.answer? = some a) :
    a = .ok ⟨joinPath z.dest name, m, plan.size⟩ ∧
      z.tree.get? (folder ++ [name]) = some (.file payload) := by
  have told : ∀ {r got coming}, z.reception = some (.ok (⟨m, plan, name⟩, r)) →
      Receiving.Standing payload plan folder name r got coming →
      a = .ok ⟨joinPath z.dest name, m, plan.size⟩ ∧
        z.tree.get? (folder ++ [name]) = some (.file payload) := by
    intro r got coming hr standing
    cases standing with
    | done hf gone there =>
      simp only [answer?, hr, hf, Option.some.injEq] at h
      refine ⟨h.symm, ?_⟩
      simpa only [tree, hr] using there
    | working intact stage =>
      cases hf : r.front with
      | finished v => exact absurd hf (stage.unfinished v)
      | _ => simp [answer?, hr, hf] at h
  cases underway with
  | waiting hd serving untouched hr => simp [answer?, hr] at h
  | receiving hd serving taken hr standing | left hd gone hr shut standing => exact told hr standing

/-! ## Runs -/

omit [Ledger σ] [LawfulStore σ] in
theorem Advance.dest_eq (h : Advance t z e y) : y.dest = z.dest := by
  cases h with
  | carry => exact dest_deliver _ _
  | serve | hangUp | conclude | receive | other => rfl

/-- A fetch stays where it should be, its moves are bounded, and it is traffic. -/
theorem Run.underway {s₀ : σ} {es₀ : List Traffic.Event} {z₀ : Fetch σ}
    (announced : Upload.Announces m plan) (safe : Name.safe m.filename = .ok name)
    (named : isEntryName name = true) (size_eq : plan.size = payload.length)
    (total_le : plan.total ≤ Word.maxInt32) (sound : Sound s₀) (empty : files s₀ = [])
    (before : Traffic.Run t ⟨s₀, []⟩ es₀ z₀.traffic)
    (held : Upload.Held t.key owner ⟨draft, plan⟩ file true z₀.traffic.store (plan.pieces payload))
    (underway : Underway t.key payload plan m file folder name z₀) (run : Run t z₀ es z)
    (works : ∀ e ∈ es, e.works = true) :
    Underway t.key payload plan m file folder name z ∧ z.dest = z₀.dest ∧
      z.weight + es.countP Event.isOwn ≤ z₀.weight ∧
      ∃ es', Traffic.Run t z₀.traffic es' z.traffic := by
  induction run with
  | nil => exact ⟨underway, rfl, Nat.le_refl _, [], .nil⟩
  | @snoc y z es e run h ih =>
    obtain ⟨underway, dest_eq, bound, es', run'⟩ :=
      ih fun e he => works e (List.mem_append_left _ he)
    have advance := advance_of_step (works e (List.mem_append_right _ List.mem_cons_self)) h
    have orderly := (before.append run').orderly_of_empty sound empty
    have held := before.held sound empty run' held
    refine ⟨underway.step announced safe named size_eq total_le orderly.sound held advance,
      advance.dest_eq.trans dest_eq, ?_, ?_⟩
    · have := underway.lighter announced safe advance
      rw [List.countP_append, List.countP_singleton]
      cases own : e.isOwn <;> simp [own] at this ⊢ <;> omega
    · rcases advance.traffic with same | ⟨e', h'⟩
      · exact ⟨es', same ▸ run'⟩
      · exact ⟨_, run'.snoc h'⟩

end Strongbox.Fetch
