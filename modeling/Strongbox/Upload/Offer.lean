import Strongbox.Piece
import Strongbox.Record

/-!
# Frames of an upload

What the frames of an upload must be: metadata that fit together, then the chunks of the plan.
-/

namespace Strongbox.Upload

open Message

/-- The file that an upload announces, and how it is cut. -/
structure Offer where
  draft : Draft
  plan : Plan
  deriving Repr, DecidableEq

def Offer.ofMetadata (m : Metadata) : Except Failure Offer := do
  if m.chunkSize.toInt ≤ 0 then throw (.protocol "chunk size must be positive")
  if m.totalChunks.toInt < 0 ∨ m.originalSize.toInt < 0 then
    throw (.protocol "negative size in metadata")
  let size := m.originalSize.toInt.toNat
  let chunkSize := m.chunkSize.toInt.toNat
  let total := m.totalChunks.toInt.toNat
  let plan ← (Plan.declared size chunkSize total).mapError Plan.Fault.failure
  let draft : Draft :=
    { filename := m.filename, mimeType := m.mimeType, originalSize := size
      description := m.description, chunkSize := chunkSize, totalChunks := total
      labels := m.labels.map fun l => (l.name, l.value) }
  return ⟨draft, plan⟩

def broken (s : Status) : Failure := .protocol ("failed to receive data: " ++ s.message)

def offer : Option Item → Except Failure Offer
  | none => .error (.protocol "empty upload stream")
  | some (.error s) => .error (broken s)
  | some (.ok (.metadata m)) => Offer.ofMetadata m
  | some (.ok _) => .error (.protocol "metadata must be sent first")

/-- The chunk that a frame brings, which must be one of the plan. -/
def piece (plan : Plan) : Item → Except Failure Piece
  | .error s => .error (broken s)
  | .ok (.metadata _) => .error (.protocol "metadata sent twice")
  | .ok .empty => .error (.protocol "empty upload frame")
  | .ok (.chunk c) => plan.piece c

end Strongbox.Upload
