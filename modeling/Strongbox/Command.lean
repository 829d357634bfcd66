import Strongbox.Command.Usage
import Strongbox.Plan
import Strongbox.Text.Blank
import Strongbox.Text.Number
import Strongbox.Text.Quoted
import Strongbox.Transfer
import Strongbox.Word

/-!
# Commands

The commands of the client program and how they are written.
-/

namespace Strongbox

inductive Command where
  | upload (path description : String) (mimeType : Option String)
      (labels : List (String × String)) (chunkSize : Nat)
  | download (file : Int) (out : String)
  | list (page perPage : Int) (filter : String)
  | info (file : Int)
  | remove (file : Int)
  | token (user : Int) (secret : String) (seconds : Nat)
  deriving Repr, DecidableEq

/-- The service to talk to, the token to show there, and how many workers a transfer uses. -/
structure Connection where
  endpoint : String := "http://127.0.0.1:50051"
  token : Option String := none
  workers : Nat := defaultWorkers
  deriving Repr, DecidableEq

/-- What the arguments of the program ask for. -/
structure Invocation where
  connection : Connection
  command : Command
  deriving Repr, DecidableEq

namespace Command

/-! ## Values -/

def badNumber (f : Number.Fault) : Usage := .badValue f.text

def integer (v : String) : Except Usage Int :=
  (Number.integer Word.maxInt64 v.toList).mapError badNumber

def natural (v : String) : Except Usage Nat :=
  (Number.natural (Word.count64 - 1) v.toList).mapError badNumber

def integerWithin (low high : Int) (v : String) : Except Usage Int := do
  let n ← integer v
  if low ≤ n ∧ n ≤ high then return n
  else throw (.badValue (toString n ++ " is not in " ++ toString low ++ "..=" ++ toString high))

/-- A path, which is not empty. -/
def path (v : String) : Except Usage String := if v.isEmpty then .error .missingValue else .ok v

/-- A name and a value with a sign between. -/
def label (v : String) : Except Usage (String × String) :=
  match Text.cut? '=' v.toList with
  | none => .error (.badValue ("expected name=value, got " ++ Text.quoted v))
  | some (name, value) =>
    let kept := Text.trim name
    if kept.isEmpty then .error (.badValue "metadata name is empty")
    else .ok (String.ofList kept, String.ofList value)

/-! ## Options of every command -/

/-- What the options of every command say, at one level. -/
structure Shared where
  endpoint : Option String := none
  token : Option String := none
  workers : Option Nat := none
  deriving Repr, DecidableEq

def sharedOptions : List (Parameter Shared) := [
  { name := "endpoint", set := fun s v => .ok { s with endpoint := some v } },
  { name := "token", set := fun s v => .ok { s with token := some v } },
  { name := "workers", set := fun s v => (natural v).map fun n => { s with workers := some n } }]

/-- The connection: what is said after the command comes first, then what is said before it, then
the environment. -/
def connection (before after : Shared) (environment : String → Option String) : Connection :=
  let given : Connection := {}
  { endpoint := (after.endpoint.or (before.endpoint.or (environment "VAULT_ENDPOINT"))).getD
      given.endpoint
    token := after.token.or (before.token.or (environment "VAULT_TOKEN"))
    workers := (after.workers.or before.workers).getD given.workers }

/-! ## The commands -/

/-- A command's own options and positions, and the command that its draft comes to. -/
structure Form where
  Draft : Type
  blank : Draft
  options : List (Parameter Draft)
  positions : List (Parameter Draft)
  finish : (String → Option String) → Draft → Option Command

structure UploadDraft where
  path : Option String := none
  description : String := ""
  mimeType : Option String := none
  labels : List (String × String) := []
  chunkSize : Nat := defaultChunkSize

def uploadForm : Form where
  Draft := UploadDraft
  blank := {}
  options := [
    { name := "description", set := fun d v => .ok { d with description := v } },
    { name := "mime", set := fun d v => .ok { d with mimeType := some v } },
    { name := "meta", repeats := true,
      set := fun d v => (label v).map fun l => { d with labels := d.labels ++ [l] } },
    { name := "chunk-size",
      set := fun d v => (integerWithin 0 (Word.count32 - 1) v).map fun n =>
        { d with chunkSize := n.toNat } }]
  positions := [
    { name := "path", set := fun d v => (path v).map fun p => { d with path := some p } }]
  finish _ d := d.path.map fun p => upload p d.description d.mimeType d.labels d.chunkSize

/-- The one position of the commands about a file. -/
def fileParameter : Parameter (Option Int) where
  name := "file_id"
  set _ v := (integer v).map some

structure DownloadDraft where
  file : Option Int := none
  out : String := "."

def downloadForm : Form where
  Draft := DownloadDraft
  blank := {}
  options := [{ name := "out", set := fun d v => (path v).map fun p => { d with out := p } }]
  positions := [fileParameter.within (·.file) fun d v => { d with file := v }]
  finish _ d := d.file.map fun file => download file d.out

structure ListDraft where
  page : Int := 1
  perPage : Int := 10
  filter : String := ""

def listForm : Form where
  Draft := ListDraft
  blank := {}
  options := [
    { name := "page",
      set := fun d v =>
        (integerWithin Word.minInt32 Word.maxInt32 v).map fun n => { d with page := n } },
    { name := "per-page",
      set := fun d v =>
        (integerWithin Word.minInt32 Word.maxInt32 v).map fun n => { d with perPage := n } },
    { name := "filter", set := fun d v => .ok { d with filter := v } }]
  positions := []
  finish _ d := some (list d.page d.perPage d.filter)

def fileForm (make : Int → Command) : Form where
  Draft := Option Int
  blank := none
  options := []
  positions := [fileParameter]
  finish _ file := file.map make

structure TokenDraft where
  user : Option Int := none
  secret : Option String := none
  seconds : Nat := 24 * 60 * 60

def tokenForm : Form where
  Draft := TokenDraft
  blank := {}
  options := [
    { name := "user", set := fun d v => (integer v).map fun n => { d with user := some n } },
    { name := "secret", set := fun d v => .ok { d with secret := some v } },
    { name := "ttl-secs", set := fun d v => (natural v).map fun n => { d with seconds := n } }]
  positions := []
  finish environment d := do
    let secret ← d.secret.or (environment "VAULT_JWT_SECRET")
    return token (← d.user) secret d.seconds

def forms : List (String × Form) := [
  ("upload", uploadForm), ("download", downloadForm), ("ls", listForm), ("info", fileForm info),
  ("rm", fileForm remove), ("token", tokenForm)]

/-- What can stand before the command. -/
def outerLevel : Level Shared where
  options := sharedOptions
  commands := forms.map Prod.fst
  hasVersion := true

/-- What can stand after the command. -/
def innerLevel (form : Form) : Level (Shared × form.Draft) where
  options := (sharedOptions.map fun p => p.within Prod.fst fun s v => (v, s.2))
    ++ form.options.map fun p => p.within Prod.snd fun s v => (s.1, v)
  positions := form.positions.map fun p => p.within Prod.snd fun s v => (s.1, v)

def readForm (environment : String → Option String) (form : Form) (words : List String) :
    Except Usage (Shared × Command) := do
  let (shared, draft) ← (innerLevel form).readAll ({}, form.blank) words
  match form.finish environment draft with
  | some command => return (shared, command)
  | none => throw .missingArgument

end Command

namespace Invocation

open Command

def parse (arguments : List String) (environment : String → Option String) :
    Except Usage Invocation := do
  let (p, command) ← outerLevel.read (.start outerLevel {}) arguments
  match command with
  | some (name, rest) =>
    if name = helpCommand then throw (outerLevel.explain rest)
    match forms.lookup name with
    | none => throw .unknownCommand
    | some form =>
      let (after, command) ← readForm environment form rest
      let before := (← p.settle).draft
      return ⟨Command.connection before after environment, command⟩
  | none =>
    let p ← p.settle
    let explicit := !p.taken.isEmpty || (environment "VAULT_ENDPOINT").isSome
      || (environment "VAULT_TOKEN").isSome
    if explicit then throw .missingCommand else throw .nothingGiven

end Invocation

end Strongbox
