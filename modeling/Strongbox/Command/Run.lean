import Strongbox.Client
import Strongbox.Command
import Strongbox.Text.Pad

/-!
# Running commands

What each command of the client program does and shows.
-/

namespace Strongbox

open Message

namespace Failure

mutual
/-- A failure as the program shows it: the kind with its contents. -/
def shown : Failure → String
  | io text => "Io(" ++ Text.quoted text ++ ")"
  | protocol text => "Protocol(" ++ Text.quoted text ++ ")"
  | encryption text => "Encryption(" ++ Text.quoted text ++ ")"
  | decryption text => "Decryption(" ++ Text.quoted text ++ ")"
  | persistence text => "Persistence(" ++ Text.quoted text ++ ")"
  | duplicateChunk file index =>
      "DuplicateChunk \x7b file_id: " ++ toString file ++ ", chunk_index: " ++ toString index
        ++ " \x7d"
  | validation text => "Validation(" ++ Text.quoted text ++ ")"
  | notFound => "NotFound"
  | unauthenticated text => "Unauthenticated(" ++ Text.quoted text ++ ")"
  | config text => "Config(" ++ Text.quoted text ++ ")"
  | transport text => "Transport(" ++ Text.quoted text ++ ")"
  | many causes => "Aggregate([" ++ ", ".intercalate (shownAll causes) ++ "])"

def shownAll : List Failure → List String
  | [] => []
  | f :: rest => shown f :: shownAll rest
end

end Failure

/-- The lines that a command shows: results, and notes about them. -/
structure Output where
  results : List String := []
  notes : List String := []
  deriving Repr, DecidableEq, Inhabited

/-- What a command can reach: which endpoints have a service that listens, that service and what it
holds, the files at hand, what is drawn for the name of a temporary file, and the time. -/
structure World (σ : Type) where
  listens : String → Bool
  remote : Remote σ
  store : σ
  tree : Tree
  drawn : String
  now : Duration

namespace Command

def uploaded (path : String) (m : Receipt) : Output where
  results := [toString m.file.toInt]
  notes := ["upload: " ++ path ++ " -> id=" ++ toString m.file.toInt ++ " ("
    ++ toString m.bytesReceived.toInt ++ " bytes)"]

def downloaded (file : Int) (d : Delivery) : Output where
  notes := ["download: id=" ++ toString file ++ " -> " ++ d.path ++ " (" ++ toString d.bytesWritten
    ++ " bytes)"]

/-- One line of a listing. -/
def row (m : ListItem) : String :=
  "  ".intercalate [Text.padStart 6 ' ' (toString m.id.toInt),
    Text.padStart 12 ' ' (toString m.size.toInt), Text.padEnd 24 ' ' m.mimeType, m.createdAt,
    m.filename]

def listed (m : ListReply) : Output where
  results := m.files.map row
  notes := ["page " ++ toString m.currentPage.toInt ++ "/" ++ toString m.totalPages.toInt ++ " ("
    ++ toString m.totalCount.toInt ++ " files)"]

def informed (m : FileDetails) : Output where
  results :=
    ["id:          " ++ toString m.id.toInt, "filename:    " ++ m.filename,
      "mime:        " ++ m.mimeType, "size:        " ++ toString m.size.toInt,
      "created:     " ++ m.createdAt]
    ++ (if m.description.isEmpty then [] else ["description: " ++ m.description])
    ++ m.labels.map fun l => "meta:        " ++ l.name ++ "=" ++ l.value

def removed (file : Int) (success : Bool) : Output where
  notes := if success then ["rm: " ++ toString file] else []

end Command

namespace Invocation

variable {σ : Type}

def client (c : Connection) (chunkSize : Nat) (w : World σ) : Except Failure Client :=
  match c.token with
  | none => .error (.config "no token: pass --token or set VAULT_TOKEN")
  | some token => Client.connect w.listens ⟨c.endpoint, token, chunkSize, c.workers⟩

/-- What comes of a call, shown, and what it leaves of the service. -/
def shows {α : Type} (w : World σ) (output : α → Output) (r : Except (Halt Failure) α × σ) :
    Except (Halt Failure) Output × World σ :=
  (r.1.map output, { w with store := r.2 })

def perform (c : Client) (command : Command) (w : World σ) :
    Except (Halt Failure) Output × World σ :=
  let answered {α : Type} (r : Except Failure α × σ) : Except (Halt Failure) α × σ :=
    (r.1.mapError .failed, r.2)
  match command with
  | .upload path description mimeType labels _ =>
    shows w (Command.uploaded path)
      (c.uploadPath w.remote Sending.readerFirst path mimeType description labels w.tree w.store)
  | .download file out =>
    let (r, tree, store) :=
      c.download w.remote Receiving.frontFirst file w.drawn out w.tree w.store
    shows { w with tree := tree } (Command.downloaded file) (r, store)
  | .list page perPage filter =>
    shows w Command.listed (answered (c.list w.remote page perPage filter w.store))
  | .info file => shows w Command.informed (answered (c.info w.remote file w.store))
  | .remove file => shows w (Command.removed file) (answered (c.delete w.remote file w.store))
  | .token .. => (.ok {}, w)

/-- What a command shows, and what it leaves. A token is made without any service. -/
def run (i : Invocation) (w : World σ) : Except (Halt Failure) Output × World σ :=
  match i.command with
  | .token user secret seconds =>
    match Token.issue (Bytes.ofString secret) (.ofSeconds seconds) w.now user with
    | none => (.error .aborted, w)
    | some token => (.ok { results := [token] }, w)
  | command =>
    let chunkSize := match command with
      | .upload _ _ _ _ chunkSize => chunkSize
      | _ => defaultChunkSize
    match client i.connection chunkSize w with
    | .error f => (.error (.failed f), w)
    | .ok c => perform c command w

/-- Lines as one text. -/
def lines (ls : List String) : String := String.join (ls.map (· ++ "\n"))

/-- The exit code, and all that is shown: results and notes. -/
def ending : Except (Halt Failure) Output → UInt32 × String × String
  | .ok o => (0, lines o.results, lines o.notes)
  | .error (.failed f) => (1, "", "Error: " ++ f.shown ++ "\n")
  | .error .aborted => (101, "", "")

end Invocation

end Strongbox
