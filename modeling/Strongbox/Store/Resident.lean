import Strongbox.Store

/-!
# Resident store

A store in memory: each file's record together with its chunks.
-/

namespace Strongbox

/-- A record with its chunks, which are in the order of their indices. -/
structure StoredFile where
  record : Record
  chunks : List Chunk
  deriving Repr, DecidableEq, Inhabited

/-- The files, and the last numbers given out. -/
structure Resident where
  files : List StoredFile := []
  lastFile : Int := 0
  lastLabel : Int := 0
  deriving Repr, DecidableEq, Inhabited

def insertChunk (c : Chunk) : List Chunk → List Chunk
  | [] => [c]
  | d :: rest => if c.index ≤ d.index then c :: d :: rest else d :: insertChunk c rest

@[simp] theorem mem_insertChunk {c d : Chunk} {cs : List Chunk} :
    d ∈ insertChunk c cs ↔ d = c ∨ d ∈ cs := by
  induction cs with
  | nil => simp [insertChunk]
  | cons e rest ih =>
    unfold insertChunk
    split
    · simp
    · simp only [List.mem_cons, ih]
      exact or_left_comm

namespace Resident

/-- A file, deleted or not. -/
def file? (s : Resident) (file : Int) : Option StoredFile := s.files.find? (·.record.id = file)

/-- A file that is not deleted. -/
def live? (s : Resident) (file : Int) : Option StoredFile :=
  (s.file? file).filter fun f => !f.record.isDeleted

def update (s : Resident) (file : Int) (change : StoredFile → StoredFile) : Resident :=
  { s with files := s.files.map fun f => if f.record.id = file then change f else f }

/-- The number of chunks stored of a file, deleted or not. -/
def chunkCount (s : Resident) (file : Int) : Nat := ((s.file? file).map (·.chunks.length)).getD 0

def record? (s : Resident) (file : Int) : Option Record := (s.file? file).map (·.record)

def create (s : Resident) (now : Moment) (owner : Int) (d : Draft) : Int × Resident :=
  let file := s.lastFile + 1
  let record := Record.ofDraft file owner d now (Record.numberLabels s.lastLabel d.labels)
  (file, { files := s.files ++ [⟨record, []⟩], lastFile := file
           lastLabel := s.lastLabel + d.labels.length })

def save (s : Resident) (file : Int) (index : Nat) (c : Sealed) : Except Failure Resident :=
  match s.live? file with
  | none => .error .notFound
  | some f =>
    if f.chunks.any (·.index = index) then .error (.duplicateChunk file index)
    else
      let chunk : Chunk := ⟨file, index, c.ciphertext, c.algorithm, c.iv⟩
      .ok (s.update file fun f => { f with chunks := insertChunk chunk f.chunks })

def complete (s : Resident) (file : Int) (bytes : Nat) : Except Failure Resident :=
  match s.live? file with
  | none => .error .notFound
  | some f =>
    let total := f.record.totalChunks
    let within := (f.chunks.filter (·.index < total)).length
    if within = total ∧ f.chunks.length = total then
      .ok (s.update file fun f =>
        { f with record := { f.record with isComplete := true, originalSize := bytes } })
    else .error (wrongChunks file f.chunks.length total)

def info (s : Resident) (file owner : Int) : Except Failure Record :=
  match s.live? file with
  | some f => if f.record.owner = owner then .ok f.record else .error .notFound
  | none => .error .notFound

/-- A range that ends before it begins has no answer, if the file exists. -/
def chunks (s : Resident) (file : Int) (range : Span) : Except (Halt Failure) (List Chunk) :=
  match s.file? file with
  | none => .error (.failed .notFound)
  | some f =>
    if range.stop < range.start then .error .aborted
    else .ok (f.chunks.filter (·.index ∈ range))

def delete (s : Resident) (owner file : Int) : Except Failure Resident :=
  match s.live? file with
  | some f =>
    if f.record.owner = owner then
      .ok (s.update file fun f => { f with record := { f.record with isDeleted := true } })
    else .error .notFound
  | none => .error .notFound

/-- The owner's available files with a field that holds the filter, letter case aside. -/
def hits (s : Resident) (owner : Int) (q : Query) : List Record :=
  newestFirst ((s.files.map (·.record)).filter fun r =>
    r.owner = owner && r.isAvailable && q.accepts r.fields)

def list (s : Resident) (owner : Int) (q : Query) : List Record × Nat :=
  let found := s.hits owner q
  (q.slice found, found.length)

def purge (s : Resident) (file : Int) : Except Failure Resident :=
  match s.file? file with
  | some _ => .ok { s with files := s.files.filter (·.record.id ≠ file) }
  | none => .error .notFound

instance : Store Resident where
  create s now owner d := .ok (s.create now owner d)
  save := save
  complete := complete
  info := info
  chunks := chunks
  delete := delete
  list s owner q := .ok (s.list owner q)
  purge := purge

end Resident

end Strongbox
