import Strongbox.Cipher

/-!
# Transfer settings

What the transfer engines need: how many workers, and the key.
-/

namespace Strongbox

def defaultWorkers : Nat := 4

/-- The settings of the transfer engines. -/
structure Transfer where
  workers : Nat
  key : Key
  workers_pos : 0 < workers

/-- The settings with a given number of workers, at least one. -/
def Transfer.make (workers : Nat) (key : Key) : Except Failure Transfer :=
  if h : 0 < workers then .ok ⟨workers, key, h⟩
  else .error (.config "workers_count must be at least 1")

end Strongbox
