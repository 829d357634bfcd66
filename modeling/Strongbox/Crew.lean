import Strongbox.Sum

/-!
# Crews

Workers that take turns at a queue. The one whose turn it is waits for something to do and gives the
turn away when it comes; once the queue is closed and empty, the workers leave one by one.
-/

namespace Strongbox

/-- Where a worker stands. -/
inductive Hand (ε : Type) where
  /-- It waits for its turn at the queue. -/
  | waiting
  /-- It has its turn and waits for something to do. -/
  | holding
  /-- It has something to do. -/
  | busy (e : ε)
  /-- It has left. -/
  | exited
  deriving Repr, DecidableEq

/-- Workers at a queue. -/
structure Crew (τ ε : Type) where
  workers : List (Hand ε)
  queue : List τ := []
  /-- Nothing more will come. -/
  closed : Bool := false

namespace Hand

variable {ε : Type}

def isGone : Hand ε → Bool
  | exited => true
  | _ => false

def isHolding : Hand ε → Bool
  | holding => true
  | _ => false

def weight (errand : ε → Nat) : Hand ε → Nat
  | exited => 0
  | holding => 1
  | waiting => 2
  | busy e => errand e

end Hand

namespace Crew

/-- The slots that a channel can have at most, an eighth of the numbers of a word. -/
def slotLimit : Nat := 0x1fffffffffffffff

/-- Whether so many workers can be set to work. There is at least one, and they are given a channel
for their failures with one slot more than there are workers. -/
def Fits (workers : Nat) : Prop := max workers 1 < slotLimit

instance : DecidablePred Fits := fun _ => Nat.decLt _ _

variable {τ ε : Type}

def deserted (c : Crew τ ε) : Bool := c.workers.all Hand.isGone

def turnFree (c : Crew τ ε) : Bool := !c.workers.any Hand.isHolding

/-- The crew with one worker elsewhere. -/
def setWorker (c : Crew τ ε) (n : Nat) (w : Hand ε) : Crew τ ε :=
  { c with workers := c.workers.set n w }

/-- What a worker with nothing to do does next: it takes its turn, or what comes first in the queue,
or it leaves. -/
def stepIdle (take : τ → ε) (c : Crew τ ε) (n : Nat) : Option (Crew τ ε) :=
  match c.workers[n]? with
  | some .waiting => if c.turnFree then some (c.setWorker n .holding) else none
  | some .holding =>
    match c.queue with
    | t :: rest => some ({ c with queue := rest }.setWorker n (.busy (take t)))
    | [] => if c.closed then some (c.setWorker n .exited) else none
  | _ => none

/-- What is left for a crew, `each` of it for everything that waits. -/
def weight (errand : ε → Nat) (each : Nat) (c : Crew τ ε) : Nat :=
  sumOver (Hand.weight errand) c.workers + each * c.queue.length

variable {c d : Crew τ ε} {n : Nat} {v w : Hand ε} (errand : ε → Nat) (each : Nat)

/-- A worker that moves gets lighter by as much as the crew. -/
theorem weight_setWorker (hw : c.workers[n]? = some v) :
    (c.setWorker n w).weight errand each + v.weight errand =
      c.weight errand each + w.weight errand := by
  have := sumOver_set (Hand.weight errand) w hw
  simp only [weight, setWorker]
  omega

theorem weight_stepIdle {take : τ → ε} (light : ∀ t, errand (take t) ≤ each)
    (h : c.stepIdle take n = some d) : d.weight errand each < c.weight errand each := by
  unfold stepIdle at h
  split at h
  · rename_i hw
    split at h <;> cases h
    have := weight_setWorker errand each (w := .holding) hw
    simp only [Hand.weight] at this
    omega
  · rename_i hw
    split at h
    · rename_i t rest hq
      cases h
      have := sumOver_set (Hand.weight errand) (.busy (take t)) hw
      have := light t
      simp only [weight, setWorker, Hand.weight, hq, List.length_cons, Nat.mul_succ] at *
      omega
    · split at h <;> cases h
      have := weight_setWorker errand each (w := .exited) hw
      simp only [Hand.weight] at this
      omega
  · cases h

end Crew

end Strongbox
