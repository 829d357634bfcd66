/-!
# Sets of code points

A set of code points is written as the increasing list of the places where membership changes: the
first number enters the set, the second leaves it, and so on.
-/

namespace Strongbox.Text

/-- The places, in increasing order, where membership in a set of numbers changes. -/
abbrev Flips := List Nat

/-- Membership: an odd number of changes lies at or before the point. -/
def Flips.covers : Flips → Nat → Bool
  | [], _ => false
  | [start], n => start ≤ n
  | start :: stop :: rest, n => if n < stop then start ≤ n else covers rest n

end Strongbox.Text
