import Strongbox.Machine
import Strongbox.Receiving.Receiver

/-!
# Receiving

A whole download received, one move after another until it has an answer.
-/

namespace Strongbox

open Message

/-- A file that has arrived. -/
structure Delivery where
  path : String
  metadata : Metadata
  bytesWritten : Nat
  deriving Repr, DecidableEq

namespace Receiving

/-- The receiver of a stream, with what the stream announces. The file is to stand in the folder
that `dest` leads to, and a part of the name of the temporary file beside it has been drawn. -/
def begin (writers : Nat) (drawn dest : String) (inbound : List Item) (tree : Tree) :
    Except (Halt Failure) (Announcement × Receiver) := do
  let a ← announcement inbound.head?
  let folder ← tree.folder dest
  let r ← Receiver.start a writers drawn folder inbound.tail tree
  return (a, r)

def machine : Machine Move Receiver where
  step := step
  weight := Receiver.weight
  crew r := r.workers.length
  lighter := weight_step

/-- The front is asked first, then the writers. No work fails. -/
def frontFirst : Schedule Move := fun _ writers =>
  .front none :: (List.range writers).map fun n => .writer n none

def Receiver.verdict (r : Receiver) : Except Failure Nat :=
  match r.front with
  | .finished v => v
  | _ => .error (.persistence "download has no answer")

end Receiving

/-- The answer to a stream that is to become a file in the folder that `dest` leads to, and the tree
afterwards. -/
def receive (schedule : Schedule Receiving.Move) (writers : Nat) (drawn dest : String)
    (inbound : List Item) (tree : Tree) : Except (Halt Failure) Delivery × Tree :=
  match Receiving.begin writers drawn dest inbound tree with
  | .error e => (.error e, tree)
  | .ok (a, r) =>
    let r := Receiving.machine.run schedule r
    let verdict := r.verdict.map fun n => Delivery.mk (joinPath dest a.name) a.metadata n
    (verdict.mapError .failed, r.tree)

end Strongbox
