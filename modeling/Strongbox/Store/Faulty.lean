import Strongbox.Store

/-!
# Faulty store

A store with faults planted in it, to see what becomes of a failure further up.
-/

namespace Strongbox

/-- Which operations fail, and how. Chunks are told apart by their index, and ranges by their start;
the chunks of the indices in `dropped` are left out of what is read. -/
structure Faults where
  create : Option Failure := none
  save : List (Nat × Failure) := []
  complete : Option Failure := none
  info : Option Failure := none
  range : List (Nat × Failure) := []
  dropped : List Nat := []
  delete : Option Failure := none
  list : Option Failure := none
  purge : Option Failure := none
  deriving Inhabited

/-- A store with faults in front of it. -/
structure Faulty (σ : Type) where
  inner : σ
  faults : Faults

namespace Faulty

variable {σ : Type}

/-- The failure that was planted, or else what the store does. -/
def planted {α : Type} (fault : Option Failure) (act : Except Failure α) : Except Failure α :=
  match fault with
  | some f => .error f
  | none => act

def renew (s : Faulty σ) (r : Except Failure σ) : Except Failure (Faulty σ) :=
  r.map fun inner => { s with inner := inner }

instance [Store σ] : Store (Faulty σ) where
  create s now owner d := planted s.faults.create do
    let (file, inner) ← Store.create s.inner now owner d
    return (file, { s with inner := inner })
  save s file index c :=
    planted (s.faults.save.lookup index) (s.renew (Store.save s.inner file index c))
  complete s file bytes := planted s.faults.complete (s.renew (Store.complete s.inner file bytes))
  info s file owner := planted s.faults.info (Store.info s.inner file owner)
  chunks s file range :=
    match s.faults.range.lookup range.start with
    | some f => .error (.failed f)
    | none => (Store.chunks s.inner file range).map (·.filter (·.index ∉ s.faults.dropped))
  delete s owner file := planted s.faults.delete (s.renew (Store.delete s.inner owner file))
  list s owner q := planted s.faults.list (Store.list s.inner owner q)
  purge s file := planted s.faults.purge (s.renew (Store.purge s.inner file))

end Faulty

end Strongbox
