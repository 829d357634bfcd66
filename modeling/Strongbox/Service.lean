import Strongbox.Download
import Strongbox.Gate
import Strongbox.Upload
import Strongbox.Word

/-!
# Service

What the file service answers to a call, and what the call leaves in the store.
-/

namespace Strongbox

open Message

/-- What a caller may ask. An upload brings its stream of frames. -/
inductive Request where
  | upload (frames : List Item)
  | download (r : FileRequest)
  | delete (r : FileRequest)
  | list (r : ListRequest)
  | info (r : FileRequest)

/-- What comes back. A download answers with a stream of frames. -/
inductive Reply where
  | receipt (m : Receipt)
  | stream (items : List Item)
  | removal (m : Removal)
  | listing (m : ListReply)
  | details (m : FileDetails)

def Upload.Summary.receipt (u : Upload.Summary) : Receipt :=
  ⟨Int64.ofInt u.file, Int64.ofNat u.bytesReceived, "success"⟩

namespace Record

def listItem (r : Record) : ListItem where
  id := Int64.ofInt r.id
  filename := r.filename
  mimeType := r.mimeType
  size := Int64.ofNat r.originalSize
  description := r.description
  createdAt := r.createdAt.shown

def details (r : Record) : FileDetails where
  id := Int64.ofInt r.id
  filename := r.filename
  mimeType := r.mimeType
  size := Int64.ofNat r.originalSize
  description := r.description
  createdAt := r.createdAt.shown
  labels := r.labels.map Label.message

end Record

/-- A count that fits a signed word; a greater one is told as the greatest that fits. -/
def boundedCount (n : Nat) : Int32 := Int32.ofNat (min n Word.maxInt32)

/-- The answer to a query: one page of records, of `total` in all. -/
def Query.reply (q : Query) (page : List Record) (total : Nat) : ListReply where
  files := page.map Record.listItem
  totalCount := boundedCount total
  totalPages := boundedCount (q.totalPages total)
  currentPage := Int32.ofNat q.page

theorem toInt_boundedCount (n : Nat) : (boundedCount n).toInt = (min n Word.maxInt32 : Nat) :=
  Int32.toInt_ofNat_of_lt (Nat.lt_succ_of_le (Nat.min_le_right ..))

/-- A reply tells the records of a page, and how many records and pages there are. Numbers beyond
the greatest word are told as that. -/
structure Message.ListReply.Tells (m : ListReply) (q : Query) (page : List Record) (total : Nat) :
    Prop where
  files_eq : m.files = page.map fun r =>
    { id := .ofInt r.id, filename := r.filename, mimeType := r.mimeType
      size := .ofNat r.originalSize, description := r.description, createdAt := r.createdAt.shown }
  totalCount_eq : m.totalCount.toInt = (min total Word.maxInt32 : Nat)
  totalPages_eq : m.totalPages.toInt = (min (q.totalPages total) Word.maxInt32 : Nat)
  currentPage_eq : m.currentPage = .ofNat q.page

theorem Query.tells_reply (q : Query) (page : List Record) (total : Nat) :
    (q.reply page total).Tells q page total where
  files_eq := rfl
  totalCount_eq := toInt_boundedCount total
  totalPages_eq := toInt_boundedCount (q.totalPages total)
  currentPage_eq := rfl

namespace Service

/-- The order of moves in the transfers of a call. -/
structure Schedules where
  upload : Schedule Upload.Move
  download : Schedule Download.Move

variable {σ : Type} [Store σ]

def told {α : Type} (r : Except Failure α) : Except (Halt Status) α :=
  r.mapError fun f => .failed f.status

def inform (user file : Int) (s : σ) : Except Failure FileDetails := do
  let r ← Store.info s file user
  if r.isAvailable then return r.details else throw .notFound

def enumerate (user : Int) (r : ListRequest) (s : σ) : Except Failure ListReply := do
  let q := Query.make r.page.toInt r.perPage.toInt r.filter
  let (page, total) ← Store.list s user q
  return q.reply page total

theorem enumerate_eq {user : Int} {r : ListRequest} {s : σ} {page : List Record} {total : Nat}
    (h : Store.list s user (Query.make r.page.toInt r.perPage.toInt r.filter) = .ok (page, total)) :
    ∃ m, enumerate user r s = .ok m ∧
      m.Tells (Query.make r.page.toInt r.perPage.toInt r.filter) page total := by
  refine ⟨_, ?_, Query.tells_reply _ page total⟩
  rw [enumerate, h]
  rfl

/-- The answer to a known user, and what it leaves in the store. -/
def perform (t : Transfer) (schedules : Schedules) (now : Moment) (user : Int) (request : Request)
    (s : σ) : Except (Halt Status) Reply × σ :=
  match request with
  | .upload frames =>
    let (r, s) := Strongbox.upload t schedules.upload user now frames s
    (told (r.map fun u => .receipt u.receipt), s)
  | .download r =>
    let r := Strongbox.download t schedules.download user r.file.toInt s
    ((r.map .stream).mapError (·.map Failure.status), s)
  | .delete r =>
    match Store.delete s user r.file.toInt with
    | .ok s => (.ok (.removal ⟨true⟩), s)
    | .error f => (told (.error f), s)
  | .list r => (told ((enumerate user r s).map .listing), s)
  | .info r => (told ((inform user r.file.toInt s).map .details), s)

/-- The answer to a caller whose identity may be missing. -/
def handle (t : Transfer) (schedules : Schedules) (now : Moment) (identity : Option Int)
    (request : Request) (s : σ) : Except (Halt Status) Reply × σ :=
  match Gate.caller identity with
  | .error status => (.error (.failed status), s)
  | .ok user => perform t schedules now user request s

/-- The answer behind the gate, to a call with headers. A call that the gate rejects reaches nothing
else. -/
def serve (secret : Bytes) (t : Transfer) (schedules : Schedules) (now : Moment)
    (headers : List Header) (request : Request) (s : σ) : Except (Halt Status) Reply × σ :=
  match Gate.enter secret now.seconds.toNat headers with
  | .error status => (.error (.failed status), s)
  | .ok user => handle t schedules now (some user) request s

end Service

end Strongbox
