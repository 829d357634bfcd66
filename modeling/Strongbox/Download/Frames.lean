import Strongbox.Cipher
import Strongbox.Message
import Strongbox.Record
import Strongbox.Span
import Strongbox.Text.Quoted

/-!
# Frames of a download

What a download sends: the metadata of the record, and the opened chunks.
-/

namespace Strongbox

def Label.message (l : Label) : Message.Label := ⟨Int64.ofInt l.id, l.name, l.value⟩

/-- The metadata of a record. Numbers are sent as signed words. -/
def Record.metadata (r : Record) : Message.Metadata where
  filename := r.filename
  mimeType := r.mimeType
  originalSize := Int64.ofNat r.originalSize
  description := r.description
  chunkSize := Int32.ofNat r.chunkSize
  totalChunks := Int32.ofNat r.totalChunks
  labels := r.labels.map Label.message

namespace Download

/-- The frame of a stored chunk of a file of `total` chunks. The chunk must have been sealed in the
one known way. -/
def openChunk (key : Key) (total : Nat) (c : Chunk) : Except Failure Message.Chunk :=
  if c.algorithm ≠ algorithmName then
    .error (.decryption ("chunk " ++ toString c.index ++ " sealed with unsupported algorithm "
      ++ Text.quoted c.algorithm))
  else
    match key.openWith c.iv c.ciphertext with
    | .ok data => .ok ⟨data, Int32.ofNat c.index, 0 < total && c.index == total - 1⟩
    | .error _ =>
      .error (.decryption ("chunk " ++ toString c.index ++ " failed authentication"))

/-- The chunks that a range worker has fetched, if there is one for each index of its range. -/
def checkRange (range : Span) (chunks : List Chunk) : Except Failure (List Chunk) :=
  if chunks.length = range.length then .ok chunks
  else
    .error (.persistence ("chunks " ++ range.toText ++ ": found " ++ toString chunks.length
      ++ " of " ++ toString range.length))

end Download

end Strongbox
