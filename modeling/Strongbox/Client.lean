import Strongbox.Crew
import Strongbox.Endpoint
import Strongbox.Mime
import Strongbox.Receiving
import Strongbox.Sending
import Strongbox.Service

/-!
# Client

The calling side of the file service.
-/

namespace Strongbox

open Message

/-- A service as its callers see it: the answer to a call with headers, and what it becomes. -/
abbrev Remote (σ : Type) := List Header → Request → σ → Except (Halt Status) Reply × σ

/-- A service that has been reached. -/
structure Client where
  header : Header
  chunkSize : Nat
  poolSize : Nat

namespace Client

/-- How to reach a service, and how files travel. The pool is the number of workers of a
transfer. -/
structure Options where
  endpoint : String
  token : String
  chunkSize : Nat := defaultChunkSize
  poolSize : Nat := defaultWorkers
  deriving Repr, DecidableEq

/-- The client with these options, given which endpoints have a service that listens. -/
def connect (listens : String → Bool) (o : Options) : Except Failure Client := do
  if o.chunkSize = 0 then throw (.config "chunk size must be positive")
  if o.poolSize = 0 then throw (.config "pool size must be at least 1")
  let header ← Header.bearer o.token
  if !Endpoint.isWellFormed o.endpoint then
    throw (.config ("endpoint " ++ Text.quoted o.endpoint ++ ": invalid URI"))
  if !listens o.endpoint then
    throw (.transport ("connect " ++ o.endpoint ++ ": transport error"))
  return ⟨header, o.chunkSize, o.poolSize⟩

variable {σ : Type}

/-- What a caller makes of an answer that has not come. -/
def failure : Halt Status → Failure
  | .failed s => s.failure
  | .aborted => .transport "Unknown: transport error"

def call {α : Type} (c : Client) (remote : Remote σ) (request : Request)
    (expected : Reply → Option α) (s : σ) : Except Failure α × σ :=
  match remote [c.header] request s with
  | (.error e, s) => (.error (failure e), s)
  | (.ok reply, s) =>
    match expected reply with
    | some a => (.ok a, s)
    | none => (.error (.transport "answer out of turn"), s)

/-- Uploads a payload. With more workers than fit the caller breaks down, and sends nothing but the
metadata. -/
def upload (c : Client) (remote : Remote σ) (schedule : Schedule Sending.Move) (o : Offering)
    (payload : Bytes) (s : σ) : Except (Halt Failure) Receipt × σ :=
  match Plan.make payload.length c.chunkSize with
  | .error f => (.error (.failed f.failure), s)
  | .ok plan =>
    let send (items : List Item) : Except Failure Receipt × σ :=
      c.call remote (.upload items) (fun | .receipt m => some m | _ => none) s
    if Crew.Fits c.poolSize then
      let (r, s) := send (Sending.stream schedule plan payload c.poolSize o)
      (r.mapError .failed, s)
    else (.error .aborted, (send [.ok (.metadata (Sending.metadata plan o))]).2)

/-- What is said about the file at a written path. Its media type is told from its name unless it is
given. -/
def offering (path : String) (mimeType : Option String) (description : String)
    (labels : List (String × String)) : Except Failure Offering :=
  match baseName? path with
  | none => .error (.validation (path ++ " has no file name"))
  | some name => .ok ⟨name, mimeType.getD (Mime.ofName name), description, labels⟩

def uploadPath (c : Client) (remote : Remote σ) (schedule : Schedule Sending.Move) (path : String)
    (mimeType : Option String) (description : String) (labels : List (String × String))
    (tree : Tree) (s : σ) : Except (Halt Failure) Receipt × σ :=
  let read := do
    let o ← offering path mimeType description labels
    return (o, ← tree.read path)
  match read with
  | .error f => (.error (.failed f), s)
  | .ok (o, payload) => c.upload remote schedule o payload s

/-- The answer to the request for a file's frames. -/
def frames (c : Client) (remote : Remote σ) (file : Int) (s : σ) :
    Except Failure (List Item) × σ :=
  c.call remote (.download ⟨Int64.ofInt file⟩) (fun | .stream items => some items | _ => none) s

def download (c : Client) (remote : Remote σ) (schedule : Schedule Receiving.Move) (file : Int)
    (drawn dest : String) (tree : Tree) (s : σ) : Except (Halt Failure) Delivery × Tree × σ :=
  match c.frames remote file s with
  | (.error f, s) => (.error (.failed f), tree, s)
  | (.ok items, s) =>
    let (r, tree) := receive schedule c.poolSize drawn dest items tree
    (r, tree, s)

def list (c : Client) (remote : Remote σ) (page perPage : Int) (filter : String) (s : σ) :
    Except Failure ListReply × σ :=
  c.call remote (.list ⟨Int32.ofInt page, Int32.ofInt perPage, filter⟩)
    (fun | .listing m => some m | _ => none) s

def info (c : Client) (remote : Remote σ) (file : Int) (s : σ) : Except Failure FileDetails × σ :=
  c.call remote (.info ⟨Int64.ofInt file⟩) (fun | .details m => some m | _ => none) s

def delete (c : Client) (remote : Remote σ) (file : Int) (s : σ) : Except Failure Bool × σ :=
  c.call remote (.delete ⟨Int64.ofInt file⟩) (fun | .removal m => some m.success | _ => none) s

end Client

end Strongbox
