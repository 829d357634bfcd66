import Strongbox.Client
import Strongbox.Traffic

/-!
# Exchanges

An upload with both of its sides at work, while other calls use the store. What the sender puts into
the stream is carried across in order; the stream ends when the workers of the sender have left, and
it is closed when the server takes no more frames.
-/

namespace Strongbox

namespace Upload

def Front.reads : Front → Bool
  | opening | creating _ | receiving _ | enqueuing .. => true
  | _ => false

/-- The front can do nothing until a frame comes or the stream ends. -/
def Pipeline.awaits (p : Pipeline) : Bool :=
  p.inbound.isEmpty && match p.front, p.slot with
    | .opening, _ | .receiving _, none => true
    | _, _ => false

def Move.isFront : Move → Bool
  | front => true
  | _ => false

end Upload

/-- The sender of an upload, and the traffic in which the upload is one of the calls. -/
structure Exchange (σ : Type) where
  traffic : Traffic σ
  /-- The place of the upload among the calls. -/
  call : Nat
  offering : Offering
  sender : Sending.Sender
  /-- How many items have been carried across. -/
  carried : Nat := 0

namespace Exchange

open Message

inductive Event where
  /-- The producer of the sender moves. -/
  | produce
  /-- A worker of the sender moves. -/
  | send (n : Nat)
  /-- The next item is carried across. -/
  | carry
  /-- The stream is closed. -/
  | hangUp
  /-- The upload moves. -/
  | serve (now : Moment) (m : Upload.Move)
  /-- Something else happens in the traffic. -/
  | other (e : Traffic.Event)

variable {σ : Type}

/-- The upload, as it stands among the calls. -/
def upload? (x : Exchange σ) : Option (Int × Upload.Pipeline) :=
  match x.traffic.calls[x.call]? with
  | some (.uploading owner p) => some (owner, p)
  | _ => none

def items (x : Exchange σ) : List Item :=
  .ok (.metadata (Sending.metadata x.sender.plan x.offering)) ::
    x.sender.sent.map fun c => .ok (.chunk c)

def ended (x : Exchange σ) : Bool := x.sender.deserted && x.carried == x.items.length

variable [Store σ]

/-- What comes of an event, if it can happen. -/
def step (t : Transfer) (e : Event) (x : Exchange σ) : Option (Exchange σ) :=
  match e with
  | .produce => (Sending.step .producer x.sender).map fun s => { x with sender := s }
  | .send n => (Sending.step (.worker n) x.sender).map fun s => { x with sender := s }
  | .carry =>
    match x.items[x.carried]?, x.upload?, Sending.step .reader x.sender with
    | some item, some (owner, p), some s =>
      let p := { p with inbound := p.inbound ++ [item] }
      some { x with traffic := x.traffic.moveTo x.call x.traffic.store (.uploading owner p)
                    sender := s
                    carried := x.carried + 1 }
    | _, _, _ => none
  | .hangUp =>
    match x.upload? with
    | some (_, p) =>
      if p.front.reads then none
      else (Sending.step .hangUp x.sender).map fun s => { x with sender := s }
    | none => none
  | .serve now m =>
    match x.upload? with
    | some (_, p) =>
      if m.isFront && p.awaits && !x.ended then none
      else (Traffic.step t (.upload x.call now m) x.traffic).map fun w => { x with traffic := w }
    | none => none
  | .other e =>
    if e.call? = some x.call then none
    else (Traffic.step t e x.traffic).map fun w => { x with traffic := w }

/-- The call for an upload. It is made only if there is a plan for the payload. With more workers
than fit the caller breaks down, and leaves the upload to itself with the metadata alone. -/
def begin (t : Transfer) (c : Client) (owner : Int) (o : Offering) (payload : Bytes)
    (w : Traffic σ) : Except (Halt Failure) (Exchange σ) :=
  match Plan.make payload.length c.chunkSize with
  | .error f => .error (.failed f.failure)
  | .ok plan =>
    if Crew.Fits c.poolSize then
      .ok { traffic := w.join (.uploading owner (.start t.workers []))
            call := w.calls.length
            offering := o
            sender := .start payload plan c.poolSize }
    else .error .aborted

/-- What a row of events leads to. -/
inductive Run (t : Transfer) (x : Exchange σ) : List Event → Exchange σ → Prop where
  | nil : Run t x [] x
  | snoc {y z : Exchange σ} {es : List Event} {e : Event} (run : Run t x es y)
      (h : step t e y = some z) : Run t x (es ++ [e]) z

omit [Store σ] in
/-- What the caller is told, once both sides are done: the answer of the server, but for a failure
to send what the server has accepted. -/
def answer? (x : Exchange σ) : Option (Except Failure Receipt) :=
  match x.upload?, x.sender.verdict? with
  | some (_, p), some sent =>
    match p.front with
    | .finished (.ok u) => some (sent.map fun () => u.receipt)
    | .finished (.error f) => some (.error (Client.failure (.failed f.status)))
    | _ => none
  | _, _ => none

end Exchange

end Strongbox
