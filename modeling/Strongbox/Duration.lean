/-!
# Durations

Spans of time in nanoseconds. A clock tells the time as the span since the start of 1970.
-/

namespace Strongbox

structure Duration where
  nanoseconds : Nat
  deriving Repr, DecidableEq, Inhabited

namespace Duration

def perSecond : Nat := 1000000000

def ofSeconds (seconds : Nat) : Duration := ⟨seconds * perSecond⟩

def seconds (d : Duration) : Nat := d.nanoseconds / perSecond

instance : Add Duration := ⟨fun d e => ⟨d.nanoseconds + e.nanoseconds⟩⟩

end Duration

end Strongbox
