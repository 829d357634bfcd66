import Strongbox.Name
import Strongbox.Piece

/-!
# Frames of a received file

What the frames of a received file must be: metadata that fit together, then the chunks of the plan.
-/

namespace Strongbox.Receiving

open Message

/-- The file that a download announces, how it is cut, and the name it is to have. -/
structure Announcement where
  metadata : Metadata
  plan : Plan
  name : String
  deriving Repr, DecidableEq

def natural (what : String) (n : Int) : Except Failure Nat :=
  if n < 0 then .error (.validation ("invalid " ++ what ++ " " ++ toString n)) else .ok n.toNat

def Announcement.ofMetadata (m : Metadata) : Except Failure Announcement := do
  let size ← natural "size" m.originalSize.toInt
  let total ← natural "total chunks" m.totalChunks.toInt
  let chunkSize ← natural "chunk size" m.chunkSize.toInt
  let plan ← (Plan.declared size chunkSize total).mapError Plan.Fault.failure
  let name ← Name.safe m.filename
  return ⟨m, plan, name⟩

/-- The announcement that begins a stream. -/
def announcement : Option Item → Except Failure Announcement
  | none => .error (.protocol "empty download stream")
  | some (.error s) => .error s.failure
  | some (.ok (.metadata m)) => Announcement.ofMetadata m
  | some (.ok _) => .error (.protocol "metadata must be sent first")

/-- The chunk that a frame brings, which must be one of the plan and not among those seen. -/
def piece (plan : Plan) (seen : List Nat) : Item → Except Failure Piece
  | .error s => .error s.failure
  | .ok (.chunk c) => do
    let p ← plan.piece c
    if p.index ∈ seen then
      throw (.validation ("chunk " ++ toString p.index ++ " received twice"))
    return p
  | .ok _ => .error (.protocol "unexpected non-chunk frame")

end Strongbox.Receiving
