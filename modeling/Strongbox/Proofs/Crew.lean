import Strongbox.Crew

/-!
# The moves of a crew

What holds of workers at a queue whatever their errands are: nothing that waits gets lost or comes
twice, nobody leaves before the end of the queue, and somebody can go on.
-/

namespace Strongbox

variable {τ ε β : Type}

/-- What a worker has in hand. -/
def Hand.inHand (f : ε → List β) : Hand ε → List β
  | busy e => f e
  | _ => []

namespace Crew

/-- A worker that has not left. -/
def Present (c : Crew τ ε) (n : Nat) : Prop := ∃ w, c.workers[n]? = some w ∧ w ≠ .exited

variable {take : τ → ε} {f : ε → List β} {c d : Crew τ ε} {n : Nat} {v w : Hand ε}

theorem deserted_iff : c.deserted = true ↔ ∀ w ∈ c.workers, w = .exited := by
  simp only [deserted, List.all_eq_true]
  refine forall_congr' fun w => imp_congr_right fun _ => ?_
  cases w <;> simp [Hand.isGone]

theorem Present.lt_length (present : c.Present n) : n < c.workers.length := by
  obtain ⟨w, hw, -⟩ := present
  exact (List.getElem?_eq_some_iff.1 hw).1

theorem Present.not_gone (present : c.Present n) : ¬∀ w ∈ c.workers, w = .exited := by
  obtain ⟨w, hw, stays⟩ := present
  exact fun gone => stays (gone w (List.mem_of_getElem? hw))

theorem deserted_eq_false_iff : c.deserted = false ↔ ∃ n, c.Present n := by
  simp only [deserted, List.all_eq_false]
  constructor
  · rintro ⟨w, hw, stays⟩
    obtain ⟨n, hn⟩ := List.mem_iff_getElem?.1 hw
    exact ⟨n, w, hn, fun gone => stays (gone ▸ rfl)⟩
  · rintro ⟨n, w, hn, stays⟩
    refine ⟨w, List.mem_of_getElem? hn, ?_⟩
    cases w with
    | exited => exact absurd rfl stays
    | waiting | holding | busy => exact Bool.false_ne_true

theorem turnFree_iff : c.turnFree = true ↔ .holding ∉ c.workers := by
  simp only [turnFree, Bool.not_eq_true', List.any_eq_false]
  constructor
  · exact fun h hmem => h _ hmem rfl
  · intro h w hw
    cases w <;> grind [Hand.isHolding]

@[simp] theorem workers_setWorker (c : Crew τ ε) (n : Nat) (w : Hand ε) :
    (c.setWorker n w).workers = c.workers.set n w := rfl

@[simp] theorem queue_setWorker (c : Crew τ ε) (n : Nat) (w : Hand ε) :
    (c.setWorker n w).queue = c.queue := rfl

inductive IdleMove (take : τ → ε) (c : Crew τ ε) (n : Nat) : Crew τ ε → Prop where
  | turn (hw : c.workers[n]? = some .waiting) (free : c.turnFree = true) :
      IdleMove take c n (c.setWorker n .holding)
  | take {t : τ} {rest : List τ} (hw : c.workers[n]? = some .holding) (hq : c.queue = t :: rest) :
      IdleMove take c n ({ c with queue := rest }.setWorker n (.busy (take t)))
  | leave (hw : c.workers[n]? = some .holding) (hq : c.queue = []) (hc : c.closed = true) :
      IdleMove take c n (c.setWorker n .exited)

theorem stepIdle_eq_some_iff : c.stepIdle take n = some d ↔ c.IdleMove take n d := by
  constructor
  · intro h
    unfold stepIdle at h
    split at h
    · rename_i hw
      split at h <;> cases h
      exact .turn hw ‹_›
    · rename_i hw
      split at h
      · rename_i hq
        cases h
        exact .take hw hq
      · rename_i hq
        split at h <;> cases h
        exact .leave hw hq ‹_›
    · cases h
  · intro h
    cases h with
    | turn hw free => simp [stepIdle, hw, free]
    | take hw hq => simp [stepIdle, hw, hq]
    | leave hw hq hc => simp [stepIdle, hw, hq, hc]

namespace IdleMove

variable (m : c.IdleMove take n d)

include m

theorem closed_eq : d.closed = c.closed := by
  cases m <;> rfl

theorem length_eq : d.workers.length = c.workers.length := by
  cases m <;> exact List.length_set

/-- What a worker has to do, it had to do before, or it has taken it from the queue. -/
theorem busy {e : ε} (he : .busy e ∈ d.workers) :
    .busy e ∈ c.workers ∨ ∃ t ∈ c.queue, take t = e := by
  cases m with
  | turn hw | leave hw =>
    rcases List.mem_or_eq_of_mem_set he with old | new
    · exact .inl old
    · cases new
  | @take t rest hw hq =>
    rcases List.mem_or_eq_of_mem_set he with old | new
    · exact .inl old
    · cases new
      exact .inr ⟨t, hq ▸ List.mem_cons_self, rfl⟩

theorem queue_subset : d.queue ⊆ c.queue := by
  cases m with
  | turn | leave => exact List.Subset.refl _
  | take hw hq => exact hq ▸ List.subset_cons_self _ _

theorem present : c.Present n := by
  cases m with
  | turn hw | take hw | leave hw => exact ⟨_, hw, nofun⟩

end IdleMove

/-! ## What the workers have in hand -/

def inHand (f : ε → List β) (c : Crew τ ε) : List β := c.workers.flatMap (Hand.inHand f)

def pending (f : ε → List τ) (c : Crew τ ε) : List τ := c.queue ++ c.inHand f

theorem mem_inHand {e : ε} {b : β} (hw : .busy e ∈ c.workers) (hb : b ∈ f e) : b ∈ c.inHand f :=
  List.mem_flatMap.2 ⟨_, hw, hb⟩

theorem inHand_of_gone (gone : ∀ w ∈ c.workers, w = .exited) : c.inHand f = [] :=
  flatMap_eq_nil_of_alike gone rfl

theorem inHand_of_waiting (waiting : ∀ w ∈ c.workers, w = .waiting) : c.inHand f = [] :=
  flatMap_eq_nil_of_alike waiting rfl

/-- With a worker elsewhere, there is what it has instead of what it had. -/
theorem sumOver_setWorker (measure : β → Nat) (hw : c.workers[n]? = some v) :
    sumOver measure ((c.setWorker n w).inHand f) + sumOver measure (v.inHand f) =
      sumOver measure (c.inHand f) + sumOver measure (w.inHand f) := by
  simp only [inHand, sumOver_flatMap, workers_setWorker]
  exact sumOver_set (fun w => sumOver measure (w.inHand f)) w hw

theorem pending_put (f : ε → List τ) (c : Crew τ ε) (t : τ) :
    ({ c with queue := c.queue ++ [t] }.pending f).Perm (c.pending f ++ [t]) := by
  show (c.queue ++ [t] ++ c.inHand f).Perm (c.queue ++ c.inHand f ++ [t])
  rw [List.append_assoc, List.append_assoc]
  exact List.perm_append_comm.append_left _

/-- What comes first in the queue goes from there into the hands of a worker. -/
theorem IdleMove.pending_perm {f : ε → List τ} (single : ∀ t, f (take t) = [t])
    (m : c.IdleMove take n d) : (d.pending f).Perm (c.pending f) := by
  classical
  apply perm_iff_sumOver.2
  intro measure
  cases m with
  | turn hw =>
    have := sumOver_setWorker (f := f) (w := .holding) measure hw
    simp only [pending, sumOver_append, queue_setWorker, Hand.inHand, sumOver_nil] at this ⊢
    omega
  | @take t rest hw hq =>
    have := sumOver_setWorker (f := f) (w := .busy (take t)) measure hw
    simp only [pending, sumOver_append, queue_setWorker, Hand.inHand, sumOver_nil, hq, single,
      sumOver_cons] at this ⊢
    simp only [inHand, workers_setWorker] at this ⊢
    omega
  | leave hw =>
    have := sumOver_setWorker (f := f) (w := .exited) measure hw
    simp only [pending, sumOver_append, queue_setWorker, Hand.inHand, sumOver_nil] at this ⊢
    omega

theorem IdleMove.inHand_perm (nothing : ∀ t, f (take t) = []) (m : c.IdleMove take n d) :
    (d.inHand f).Perm (c.inHand f) := by
  classical
  apply perm_iff_sumOver.2
  intro measure
  have same {v w : Hand ε} (hw : c.workers[n]? = some v) (before : v.inHand f = [])
      (after : w.inHand f = []) : sumOver measure ((c.setWorker n w).inHand f) =
        sumOver measure (c.inHand f) := by
    have := sumOver_setWorker (f := f) (w := w) measure hw
    simpa only [before, after, sumOver_nil, Nat.add_zero] using this
  cases m with
  | turn hw | leave hw => exact same hw rfl rfl
  | take hw hq => exact same hw rfl (nothing _)

/-! ## The end of the queue -/

/-- Nobody leaves before the end of the queue. -/
def Loyal (c : Crew τ ε) : Prop := .exited ∈ c.workers → c.closed = true ∧ c.queue = []

theorem Loyal.of_waiting (waiting : ∀ w ∈ c.workers, w = .waiting) : c.Loyal := by
  intro gone
  cases waiting _ gone

theorem Loyal.setWorker (loyal : c.Loyal) (stays : w ≠ .exited) : (c.setWorker n w).Loyal := by
  intro gone
  rcases List.mem_or_eq_of_mem_set gone with old | new
  · exact loyal old
  · exact absurd new.symm stays

theorem Loyal.idle (loyal : c.Loyal) (m : c.IdleMove take n d) : d.Loyal := by
  intro gone
  cases m with
  | turn hw => exact loyal.setWorker nofun gone
  | take hw hq =>
    rcases List.mem_or_eq_of_mem_set gone with old | new
    · rw [(loyal old).2] at hq
      cases hq
    · cases new
  | leave hw hq hc => exact ⟨hc, hq⟩

theorem Loyal.put (loyal : c.Loyal) (opened : c.closed = false) (t : τ) :
    { c with queue := c.queue ++ [t] }.Loyal := by
  intro gone
  rw [(loyal gone).1] at opened
  cases opened

theorem Loyal.close (loyal : c.Loyal) : { c with closed := true }.Loyal := fun gone =>
  ⟨rfl, (loyal gone).2⟩

theorem Loyal.queue_eq_nil (loyal : c.Loyal) (manned : c.workers ≠ [])
    (gone : ∀ w ∈ c.workers, w = .exited) : c.queue = [] := by
  obtain ⟨w, hw⟩ := List.exists_mem_of_ne_nil _ manned
  exact (loyal (gone w hw ▸ hw)).2

theorem Loyal.pending_eq_nil {f : ε → List τ} (loyal : c.Loyal) (manned : c.workers ≠ [])
    (gone : ∀ w ∈ c.workers, w = .exited) : c.pending f = [] := by
  rw [pending, loyal.queue_eq_nil manned gone, inHand_of_gone gone]
  rfl

theorem Loyal.present (loyal : c.Loyal) (manned : c.workers ≠ []) (full : c.queue ≠ []) :
    ∃ n, c.Present n := by
  refine deserted_eq_false_iff.1 (Bool.not_eq_true _ ▸ fun gone => ?_)
  exact full (loyal.queue_eq_nil manned (deserted_iff.1 gone))

/-! ## Progress -/

/-- While something waits, or nothing more will come, a crew of which somebody is left has somebody
with something to do, or with a move to make. -/
theorem busy_or_idle (take : τ → ε) (present : ∃ n, c.Present n)
    (fed : c.queue ≠ [] ∨ c.closed = true) :
    (∃ (n : Nat) (e : ε), c.workers[n]? = some (.busy e)) ∨ ∃ n d, c.IdleMove take n d := by
  by_cases held : .holding ∈ c.workers
  · obtain ⟨n, hn⟩ := List.mem_iff_getElem?.1 held
    right
    cases hq : c.queue with
    | cons t rest => exact ⟨n, _, .take hn hq⟩
    | nil => exact ⟨n, _, .leave hn hq (fed.resolve_left (not_not_intro hq))⟩
  · obtain ⟨n, w, hn, stays⟩ := present
    cases w with
    | waiting => exact .inr ⟨n, _, .turn hn (turnFree_iff.2 held)⟩
    | holding => exact absurd (List.mem_of_getElem? hn) held
    | busy e => exact .inl ⟨n, e, hn⟩
    | exited => exact absurd rfl stays

end Crew

end Strongbox
