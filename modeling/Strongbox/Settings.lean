import Strongbox.Address
import Strongbox.Json
import Strongbox.Passphrase
import Strongbox.Text.Blank
import Strongbox.Text.Hex
import Strongbox.Text.Number
import Strongbox.Text.Quoted
import Strongbox.Transfer
import Strongbox.Word

/-!
# Settings

What a service needs to start: a settings file first, then the environment, then a check.
-/

namespace Strongbox

/-- What a service needs to start. The key is given by its digits, or else by a passphrase with a
salt. -/
structure Settings where
  address : String := "127.0.0.1:50051"
  databasePath : String := "vault.db"
  tokenSecret : String := ""
  workers : Nat := defaultWorkers
  encryptionKey : Option String := none
  encryptionPassphrase : Option String := none
  keySalt : Option String := none
  deriving Repr, DecidableEq, Inhabited

namespace Settings

/-! ## The file -/

def optionalText? : Json → Option (Option String)
  | .null => some none
  | item => item.text?.map some

/-- The members of a settings file, in order, and what each one sets. -/
def members : List (String × (Settings → Json → Option Settings)) := [
  ("address", fun s item => item.text?.map fun v => { s with address := v }),
  ("database_path", fun s item => item.text?.map fun v => { s with databasePath := v }),
  ("jwt_secret", fun s item => item.text?.map fun v => { s with tokenSecret := v }),
  ("workers_count", fun s item => item.word?.map fun v => { s with workers := v }),
  ("encryption_key", fun s item => (optionalText? item).map fun v => { s with encryptionKey := v }),
  ("encryption_passphrase", fun s item =>
    (optionalText? item).map fun v => { s with encryptionPassphrase := v }),
  ("key_salt", fun s item => (optionalText? item).map fun v => { s with keySalt := v })]

/-- The settings after one member; a member without a meaning is passed over. -/
def setMember (s : Settings) (member : String × Json) : Option Settings :=
  match members.lookup member.1 with
  | some set => set s member.2
  | none => some s

/-- The settings that members give, none of which may repeat if it has a meaning. -/
def ofMembers? (given : List (String × Json)) : Option Settings := do
  guard (members.all fun (name, _) => (given.filter (·.1 == name)).length ≤ 1)
  given.foldlM setMember {}

/-- The settings that values give in order; the last ones may be left out. -/
def ofItems? (items : List Json) : Option Settings := do
  guard (items.length ≤ members.length)
  (members.zip items).foldlM (fun s ((_, set), item) => set s item) {}

def ofDocument? : Json → Option Settings
  | .list items => ofItems? items
  | document => document.members?.bind ofMembers?

def parse? (b : Bytes) : Option Settings := (Json.parse? b).bind ofDocument?

/-- Why a settings file is no use. -/
inductive FileFault where
  | missing
  | notText
  | malformed
  deriving Repr, DecidableEq

def FileFault.failure (path : String) : FileFault → Failure
  | missing => .io "No such file or directory (os error 2)"
  | notText => .io "stream did not contain valid UTF-8"
  | malformed => .config (path ++ ": malformed settings")

def ofFile (contents : Option Bytes) : Except FileFault Settings :=
  match contents with
  | none => .error .missing
  | some b =>
    if (Bytes.toString? b).isNone then .error .notText
    else
      match parse? b with
      | some s => .ok s
      | none => .error .malformed

/-! ## The environment -/

def workersOf (v : String) : Except Failure Nat :=
  (Number.natural (Word.count64 - 1) (Text.trim v.toList)).mapError fun _ =>
    .config ("VAULT_WORKERS: not a number: " ++ Text.quoted v)

/-- The settings after a look at the environment. Where a variable is no use, the settings before it
are kept, and those after it not looked at. -/
def override (s : Settings) (environment : String → Option String) :
    Settings × Except Failure Unit :=
  let s := (environment "VAULT_ADDRESS").elim s fun v => { s with address := v }
  let s := (environment "VAULT_DATABASE_PATH").elim s fun v => { s with databasePath := v }
  let s := (environment "VAULT_JWT_SECRET").elim s fun v => { s with tokenSecret := v }
  match (environment "VAULT_WORKERS").mapM workersOf with
  | .error f => (s, .error f)
  | .ok workers? =>
    let s := workers?.elim s fun n => { s with workers := n }
    let s := (environment "VAULT_ENCRYPTION_KEY").elim s fun v => { s with encryptionKey := some v }
    (s, .ok ())

/-! ## The check -/

def listenAddress (s : Settings) : Except Failure Address :=
  match Address.parse? s.address with
  | some a => .ok a
  | none =>
    .error (.config ("address " ++ Text.quoted s.address ++ ": invalid socket address syntax"))

/-- Accepts settings that a service can start with. -/
def validate (s : Settings) : Except Failure Unit := do
  let _ ← s.listenAddress
  if s.tokenSecret.isEmpty then throw (.config "jwt_secret is required")
  if s.workers = 0 then throw (.config "workers_count must be at least 1")
  if s.encryptionKey.isNone && s.encryptionPassphrase.isNone then
    throw (.config "one of encryption_key or encryption_passphrase is required")

/-- The key: its digits come first, then the passphrase. -/
def key (s : Settings) : Except Failure Key := do
  match s.encryptionKey, s.encryptionPassphrase, s.keySalt with
  | some digits, _, _ =>
    let b ← (Hex.parse Key.length digits).mapError Hex.Fault.failure
    match Key.ofBytes? b with
    | some k => return k
    | none => throw (Hex.Fault.wrongCount Key.length b.length).failure
  | none, some passphrase, some salt => deriveKey (Bytes.ofString passphrase) (Bytes.ofString salt)
  | none, some _, none => throw (.config "key_salt is required with encryption_passphrase")
  | none, none, _ => throw (.config "no encryption key configured")

def transfer (s : Settings) : Except Failure Transfer := do
  Transfer.make s.workers (← s.key)

/-- The settings of a service. `file` holds a path and what is there, if the environment names
one. -/
def load (file : Option (String × Option Bytes)) (environment : String → Option String) :
    Except Failure Settings := do
  let s ← match file with
    | none => pure {}
    | some (path, contents) => (ofFile contents).mapError (FileFault.failure path)
  let (s, outcome) := s.override environment
  outcome
  s.validate
  return s

end Settings

end Strongbox
