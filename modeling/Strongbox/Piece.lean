import Strongbox.Message
import Strongbox.Plan

/-!
# Pieces

A chunk frame that has been held against a plan.
-/

namespace Strongbox

/-- A chunk of a plan with its bytes. -/
structure Piece where
  index : Nat
  data : Bytes
  deriving Repr, DecidableEq, Inhabited

/-- The piece that a chunk frame brings, which must be in the plan and have its length there. -/
def Plan.piece (p : Plan) (c : Message.Chunk) : Except Failure Piece :=
  let index := c.index.toInt
  if index < 0 then .error (Plan.Fault.outside index p.total).failure
  else
    match p.check index.toNat c.data.length with
    | .ok () => .ok ⟨index.toNat, c.data⟩
    | .error f => .error f.failure

end Strongbox
