import Strongbox.Download.Distributor
import Strongbox.Machine
import Strongbox.Partition
import Strongbox.Transfer

/-!
# Downloads

A whole download, one move after another until the stream is over.
-/

namespace Strongbox

namespace Download

variable {σ : Type} [Store σ]

/-- The distributor of a file for its owner. A file that is not available is not found, and a number
of workers that stands for none has no answer. -/
def begin (workers : Nat) (owner file : Int) (s : σ) : Except (Halt Failure) Distributor :=
  match Store.info s file owner with
  | .error f => .error (.failed f)
  | .ok r =>
    if r.isAvailable then
      match partition r.totalChunks workers with
      | none => .error .aborted
      | some ranges => .ok (.start r ranges)
    else .error (.failed .notFound)

def machine (key : Key) (s : σ) : Machine Move Distributor where
  step m d := step key m s d
  weight := Distributor.weight
  crew d := d.workers.length
  lighter := weight_step

/-- The workers are asked first, then the end of the stream, then the reader, who never leaves. -/
def workersFirst : Schedule Move := fun _ workers =>
  (List.range workers).map .worker ++ [.closer, .reader]

end Download

/-- What the reader of a download gets, in order. -/
def download {σ : Type} [Store σ] (t : Transfer) (schedule : Schedule Download.Move)
    (owner file : Int) (s : σ) : Except (Halt Failure) (List Message.Item) :=
  (Download.begin t.workers owner file s).map fun d =>
    ((Download.machine t.key s).run schedule d).taken

end Strongbox
