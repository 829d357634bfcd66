import Strongbox.Client
import Strongbox.Traffic

/-!
# Fetches

A download with both of its sides at work, while other calls use the store. What waits for the
reader is carried across in order; the stream ends when the distributor is over, and it is closed
when the caller takes no more frames.
-/

namespace Strongbox

namespace Receiving

def Front.reads : Front → Bool
  | reading | enqueuing _ => true
  | _ => false

/-- The front can do nothing until a frame comes or the stream ends. -/
def Receiver.awaits (r : Receiver) : Bool :=
  r.inbound.isEmpty && match r.front with
    | .reading => true
    | _ => false

def Move.isFront : Move → Bool
  | front _ => true
  | writer .. => false

/-- No work on a file fails. -/
def Move.works : Move → Bool
  | front fault => fault.isNone
  | writer _ fault => fault.isNone

end Receiving

/-- The traffic in which a download is one of the calls, and what the caller makes of it. -/
structure Fetch (σ : Type) where
  traffic : Traffic σ
  /-- The place of the download among the calls. -/
  call : Nat
  /-- The folder that the file is to stand in, as it is written. -/
  dest : String
  /-- How many writers there are to be. -/
  writers : Nat
  /-- What is drawn for the name of the temporary file. -/
  drawn : String
  /-- The tree before the first frame. -/
  ground : Tree
  /-- The receiver, once the first frame has come and unless it was turned away. -/
  reception : Option (Except (Halt Failure) (Receiving.Announcement × Receiving.Receiver)) := none

namespace Fetch

open Message

inductive Event where
  /-- A worker of the distributor moves. -/
  | fetch (n : Nat)
  /-- The end of the stream moves. -/
  | close
  /-- The next item is carried across. -/
  | carry
  /-- The stream is closed. -/
  | hangUp
  /-- The receiver moves. -/
  | receive (m : Receiving.Move)
  /-- Something else happens in the traffic. -/
  | other (e : Traffic.Event)

def Event.isOwn : Event → Bool
  | other _ => false
  | _ => true

def Event.works : Event → Bool
  | receive m => m.works
  | _ => true

variable {σ : Type}

def download? (z : Fetch σ) : Option Download.Distributor :=
  match z.traffic.calls[z.call]? with
  | some (.downloading d) => some d
  | _ => none

/-- The fetch, with the download elsewhere. -/
def moved (z : Fetch σ) (d : Download.Distributor) : Fetch σ :=
  { z with traffic := z.traffic.moveTo z.call z.traffic.store (.downloading d) }

def ended (z : Fetch σ) : Bool :=
  match z.download? with
  | some d => d.isOver
  | none => false

/-- The caller takes no more frames. -/
def shut (z : Fetch σ) : Bool :=
  match z.reception with
  | none => false
  | some (.error _) => true
  | some (.ok (_, r)) => !r.front.reads

/-- An item has come across. -/
def deliver (z : Fetch σ) (item : Item) : Fetch σ :=
  match z.reception with
  | none => { z with reception := some (Receiving.begin z.writers z.drawn z.dest [item] z.ground) }
  | some (.error _) => z
  | some (.ok (a, r)) =>
    { z with reception := some (.ok (a, { r with inbound := r.inbound ++ [item] })) }

variable [Store σ]

def step (t : Transfer) (e : Event) (z : Fetch σ) : Option (Fetch σ) :=
  match e with
  | .fetch n =>
    z.download?.bind fun d => (Download.step t.key (.worker n) z.traffic.store d).map z.moved
  | .close =>
    z.download?.bind fun d => (Download.step t.key .closer z.traffic.store d).map z.moved
  | .carry =>
    match z.download? with
    | none => none
    | some d =>
      match d.queue, Download.step t.key .reader z.traffic.store d with
      | item :: _, some d => some ((z.moved d).deliver item)
      | _, _ => none
  | .hangUp =>
    if z.shut then
      z.download?.bind fun d => (Download.step t.key .hangUp z.traffic.store d).map z.moved
    else none
  | .receive m =>
    match z.reception with
    | none =>
      if m.isFront && z.ended then
        some { z with reception := some (Receiving.begin z.writers z.drawn z.dest [] z.ground) }
      else none
    | some (.error _) => none
    | some (.ok (a, r)) =>
      if m.isFront && r.awaits && !z.ended then none
      else (Receiving.step m r).map fun r => { z with reception := some (.ok (a, r)) }
  | .other e =>
    if e.call? = some z.call then none
    else (Traffic.step t e z.traffic).map fun w => { z with traffic := w }

/-- The call for a download, with the folder that the file is to stand in and what is drawn for the
name of its temporary file. -/
def begin (t : Transfer) (c : Client) (user : Int) (file : Int64) (drawn dest : String)
    (tree : Tree) (w : Traffic σ) : Except Failure (Fetch σ) :=
  match Download.begin t.workers user file.toInt w.store with
  | .error e => .error (Client.failure (e.map Failure.status))
  | .ok d => .ok { traffic := w.join (.downloading d)
                   call := w.calls.length
                   dest := dest
                   writers := c.poolSize
                   drawn := drawn
                   ground := tree }

/-- What a row of events leads to. -/
inductive Run (t : Transfer) (z : Fetch σ) : List Event → Fetch σ → Prop where
  | nil : Run t z [] z
  | snoc {y u : Fetch σ} {es : List Event} {e : Event} (run : Run t z es y)
      (h : step t e y = some u) : Run t z (es ++ [e]) u

omit [Store σ] in
/-- What the caller is told, once the receiver is done. -/
def answer? (z : Fetch σ) : Option (Except (Halt Failure) Delivery) :=
  match z.reception with
  | none => none
  | some (.error e) => some (.error e)
  | some (.ok (a, r)) =>
    match r.front with
    | .finished (.ok n) => some (.ok ⟨joinPath z.dest a.name, a.metadata, n⟩)
    | .finished (.error f) => some (.error (.failed f))
    | _ => none

omit [Store σ] in
def tree (z : Fetch σ) : Tree :=
  match z.reception with
  | some (.ok (_, r)) => r.tree
  | _ => z.ground

end Fetch

end Strongbox
