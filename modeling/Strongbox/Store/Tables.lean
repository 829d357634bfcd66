import Strongbox.Store
import Strongbox.Store.Pattern
import Strongbox.Word

/-!
# Relational store

A store in three tables: files, chunks and labels. Sizes are kept as signed words of sixty-four
bits, and texts are read up to their first null character.
-/

namespace Strongbox

structure FileRow where
  id : Int
  owner : Int
  filename : String
  mimeType : String
  originalSize : Int
  description : String
  chunkSize : Nat
  totalChunks : Nat
  isComplete : Bool
  isDeleted : Bool
  createdAt : Int
  deriving Repr, DecidableEq, Inhabited

/-- A row of the table of chunks. The file and the index together are unique. -/
structure ChunkRow where
  file : Int
  index : Nat
  data : Bytes
  algorithm : String
  iv : Bytes
  deriving Repr, DecidableEq, Inhabited

structure LabelRow where
  id : Int
  file : Int
  name : String
  value : String
  deriving Repr, DecidableEq, Inhabited

/-- The tables, in the order in which rows came, and the last numbers given out. -/
structure Tables where
  files : List FileRow := []
  chunks : List ChunkRow := []
  labels : List LabelRow := []
  lastFile : Int := 0
  lastLabel : Int := 0
  deriving Repr, DecidableEq, Inhabited

namespace Tables

def signedWord (n : Nat) : Int := Int.bmod n Word.count64

/-- A text as it is read back. -/
def readText (s : String) : String := String.ofList (Pattern.visible s)

def labelRows (last file : Int) (pairs : List (String × String)) : List LabelRow :=
  (Record.numberLabels last pairs).map fun l => ⟨l.id, file, l.name, l.value⟩

def chunksOf (t : Tables) (file : Int) : List ChunkRow := t.chunks.filter (·.file = file)

def labelsOf (t : Tables) (file : Int) : List Label :=
  (t.labels.filter (·.file = file)).map fun l => ⟨l.id, readText l.name, readText l.value⟩

def record (r : FileRow) (labels : List Label) : Record where
  id := r.id
  owner := r.owner
  filename := readText r.filename
  mimeType := readText r.mimeType
  originalSize := r.originalSize.toNat
  chunkSize := r.chunkSize
  totalChunks := r.totalChunks
  description := readText r.description
  isComplete := r.isComplete
  isDeleted := r.isDeleted
  createdAt := .universal r.createdAt 0
  labels := labels

def live? (t : Tables) (file : Int) : Option FileRow :=
  t.files.find? fun r => r.id = file ∧ !r.isDeleted

def update (t : Tables) (file : Int) (change : FileRow → FileRow) : Tables :=
  { t with files := t.files.map fun r => if r.id = file ∧ !r.isDeleted then change r else r }

def create (t : Tables) (now : Moment) (owner : Int) (d : Draft) : Int × Tables :=
  let file := t.lastFile + 1
  let row : FileRow :=
    { id := file, owner := owner, filename := d.filename, mimeType := d.mimeType
      originalSize := signedWord d.originalSize, description := d.description
      chunkSize := d.chunkSize, totalChunks := d.totalChunks, isComplete := false
      isDeleted := false, createdAt := now.seconds }
  (file, { t with files := t.files ++ [row]
                  labels := t.labels ++ labelRows t.lastLabel file d.labels
                  lastFile := file, lastLabel := t.lastLabel + d.labels.length })

def save (t : Tables) (file : Int) (index : Nat) (c : Sealed) : Except Failure Tables :=
  match t.live? file with
  | none => .error .notFound
  | some _ =>
    if (t.chunksOf file).any (·.index = index) then .error (.duplicateChunk file index)
    else
      let row : ChunkRow := ⟨file, index, c.ciphertext, c.algorithm, c.iv⟩
      .ok { t with chunks := t.chunks ++ [row] }

def complete (t : Tables) (file : Int) (bytes : Nat) : Except Failure Tables :=
  match t.live? file with
  | none => .error .notFound
  | some r =>
    let stored := t.chunksOf file
    let within := (stored.filter (·.index < r.totalChunks)).length
    if stored.length = r.totalChunks ∧ within = r.totalChunks then
      .ok (t.update file fun r => { r with isComplete := true, originalSize := signedWord bytes })
    else .error (wrongChunks file stored.length r.totalChunks)

def info (t : Tables) (file owner : Int) : Except Failure Record :=
  match t.live? file with
  | some r => if r.owner = owner then .ok (record r (t.labelsOf file)) else .error .notFound
  | none => .error .notFound

/-- A file that is missing has no chunks, like a range that ends before it begins. -/
def range (t : Tables) (file : Int) (s : Span) : List Chunk :=
  (((t.chunksOf file).filter (·.index ∈ s)).mergeSort fun a b => a.index ≤ b.index).map fun r =>
    ⟨file, r.index, r.data, readText r.algorithm, r.iv⟩

def delete (t : Tables) (owner file : Int) : Except Failure Tables :=
  match t.live? file with
  | some r =>
    if r.owner = owner then .ok (t.update file fun r => { r with isDeleted := true })
    else .error .notFound
  | none => .error .notFound

def available (t : Tables) (owner : Int) : List FileRow :=
  t.files.filter fun r => r.owner = owner && r.isComplete && !r.isDeleted

def pattern (q : Query) : String :=
  match q.filter with
  | none => "%"
  | some f => Pattern.containing f

/-- Whether a text of the row, or of one of its labels, matches a pattern. -/
def rowAccepts (t : Tables) (pattern : String) (r : FileRow) : Bool :=
  [r.filename, r.description, r.mimeType].any (Pattern.accepts pattern)
    || (t.labels.filter (·.file = r.id)).any fun l =>
      Pattern.accepts pattern l.name || Pattern.accepts pattern l.value

/-- Records of a listing carry no labels. A pattern that is too long is refused as soon as there is
a row to try it on. -/
def list (t : Tables) (owner : Int) (q : Query) : Except Failure (List Record × Nat) :=
  let pattern := pattern q
  let rows := t.available owner
  if !rows.isEmpty && Pattern.maxBytes < pattern.utf8ByteSize then
    .error (.persistence "SQLite failure: `LIKE or GLOB pattern too complex`")
  else
    let found := newestFirst ((rows.filter (t.rowAccepts pattern)).map fun r => record r [])
    .ok (q.slice found, found.length)

/-- The chunks and labels of a file go with its row. -/
def purge (t : Tables) (file : Int) : Except Failure Tables :=
  if t.files.any (·.id = file) then
    .ok { t with files := t.files.filter (·.id ≠ file), chunks := t.chunks.filter (·.file ≠ file)
                 labels := t.labels.filter (·.file ≠ file) }
  else .error .notFound

instance : Store Tables where
  create t now owner d := .ok (t.create now owner d)
  save := save
  complete := complete
  info := info
  chunks t file s := .ok (t.range file s)
  delete := delete
  list := list
  purge := purge

end Tables

end Strongbox
