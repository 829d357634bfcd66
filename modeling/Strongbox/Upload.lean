import Strongbox.Machine
import Strongbox.Transfer
import Strongbox.Upload.Pipeline

/-!
# Uploads

A whole upload, one move after another until it has an answer.
-/

namespace Strongbox

namespace Upload

/-- The front is asked first, then the accumulator, then the workers. No two moves ask for a nonce
at the same weight. -/
def frontFirst (nonces : Nat → Option Nonce) : Schedule Move := fun weight workers =>
  .front :: .accumulator :: (List.range workers).map fun n => .worker n (nonces weight)

/-- The pipeline as a machine, with the store that it works on. -/
def machine {σ : Type} [Store σ] (key : Key) (owner : Int) (now : Moment) :
    Machine Move (σ × Pipeline) where
  step m x := step key owner now m x.1 x.2
  weight x := x.2.weight
  crew x := x.2.workers.length
  lighter := weight_step

def Pipeline.verdict (p : Pipeline) : Except Failure Summary :=
  match p.front with
  | .finished v => v
  | _ => .error (.persistence "upload has no answer")

end Upload

def upload {σ : Type} [Store σ] (t : Transfer) (schedule : Schedule Upload.Move)
    (owner : Int) (now : Moment) (inbound : List Message.Item) (s : σ) :
    Except Failure Upload.Summary × σ :=
  let (s, p) := (Upload.machine t.key owner now).run schedule (s, .start t.workers inbound)
  (p.verdict, s)

end Strongbox
