import Strongbox.Bytes
import Strongbox.Moment

/-!
# Records

What is kept of a file: its record, and its chunks.
-/

namespace Strongbox

/-- What the owner declares about a new file. -/
structure Draft where
  filename : String := ""
  mimeType : String := ""
  originalSize : Nat := 0
  description : String := ""
  chunkSize : Nat := 0
  totalChunks : Nat := 0
  labels : List (String × String) := []
  deriving Repr, DecidableEq, Inhabited

/-- A name with a value, attached to a stored file. -/
structure Label where
  id : Int
  name : String
  value : String
  deriving Repr, DecidableEq, Inhabited

/-- What is known of a stored file. Its size is the declared one until the upload is complete, and
the number of bytes received from then on. -/
structure Record where
  id : Int
  owner : Int
  filename : String
  mimeType : String
  originalSize : Nat
  chunkSize : Nat
  totalChunks : Nat
  description : String
  isComplete : Bool
  isDeleted : Bool
  createdAt : Moment
  labels : List Label
  deriving Repr, DecidableEq, Inhabited

namespace Record

/-- Whether the owner sees the file. -/
def isAvailable (r : Record) : Bool := r.isComplete && !r.isDeleted

def ofDraft (id owner : Int) (d : Draft) (createdAt : Moment) (labels : List Label) : Record where
  id := id
  owner := owner
  filename := d.filename
  mimeType := d.mimeType
  originalSize := d.originalSize
  chunkSize := d.chunkSize
  totalChunks := d.totalChunks
  description := d.description
  isComplete := false
  isDeleted := false
  createdAt := createdAt
  labels := labels

/-- The labels of a new file, numbered in a row after `last`. -/
def numberLabels (last : Int) : List (String × String) → List Label
  | [] => []
  | (name, value) :: rest => ⟨last + 1, name, value⟩ :: numberLabels (last + 1) rest

/-- The texts that a filter searches. -/
def fields (r : Record) : List String :=
  [r.filename, r.description, r.mimeType] ++ r.labels.flatMap fun l => [l.name, l.value]

end Record

/-- Whether one record comes before another in a listing: the later one first, and of two made at
the same moment the one with the higher number. -/
def Record.precedes (a b : Record) : Bool :=
  let made (r : Record) := (r.createdAt.seconds, r.createdAt.nanos)
  if made a = made b then b.id ≤ a.id
  else if a.createdAt.seconds = b.createdAt.seconds then b.createdAt.nanos ≤ a.createdAt.nanos
  else b.createdAt.seconds ≤ a.createdAt.seconds

def newestFirst (rs : List Record) : List Record := rs.mergeSort Record.precedes

structure Chunk where
  file : Int
  index : Nat
  ciphertext : Bytes
  algorithm : String
  iv : Bytes
  deriving Repr, DecidableEq, Inhabited

end Strongbox
