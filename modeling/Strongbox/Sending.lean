import Strongbox.Machine
import Strongbox.Sending.Sender

/-!
# Sending

The sending side of a whole upload, one move after another until it has an answer.
-/

namespace Strongbox

/-- What is said about a payload. -/
structure Offering where
  filename : String
  mimeType : String
  description : String := ""
  labels : List (String × String) := []
  deriving Repr, DecidableEq, Inhabited

namespace Sending

open Message

/-- The frame that announces a payload. Numbers are sent as signed words. -/
def metadata (plan : Plan) (o : Offering) : Metadata where
  filename := o.filename
  mimeType := o.mimeType
  originalSize := Int64.ofNat plan.size
  description := o.description
  chunkSize := Int32.ofNat plan.chunkSize
  totalChunks := Int32.ofNat plan.total
  labels := o.labels.map fun (name, value) => ⟨0, name, value⟩

def machine : Machine Move Sender where
  step := step
  weight := Sender.weight
  crew s := s.workers.length
  lighter := weight_step

/-- The reader, who never leaves, is asked first, then the producer, then the workers. -/
def readerFirst : Schedule Move := fun _ workers =>
  .reader :: .producer :: (List.range workers).map .worker

/-- The frames of an upload, in the order in which the stream accepts them. -/
def stream (schedule : Schedule Move) (plan : Plan) (payload : Bytes) (workers : Nat)
    (o : Offering) : List Item :=
  let s := machine.run schedule (.start payload plan workers)
  .ok (.metadata (metadata plan o)) :: s.sent.map fun c => .ok (.chunk c)

end Sending

end Strongbox
