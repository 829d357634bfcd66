import Std.Time.DateTime.Timestamp
import Strongbox.Command.Run

/-!
# The client program

The outer layer of the client program. It reaches no network, so that no endpoint has a service that
listens: commands that need one end with the failure that says so, and tokens are made.
-/

namespace Strongbox

/-- A world without network and files. -/
def isolated (now : Duration) : World Unit where
  listens := fun _ => false
  remote := fun _ _ s => (.error .aborted, s)
  store := ()
  tree := {}
  drawn := ""
  now := now

def environmentNames : List String := ["VAULT_ENDPOINT", "VAULT_TOKEN", "VAULT_JWT_SECRET"]

/-- Shows why the arguments ask for nothing that can be run. -/
def refuse (u : Usage) : IO UInt32 :=
  match u with
  | .helpWanted | .versionWanted => return 0
  | .badValue text => do
    IO.eprintln ("error: " ++ text)
    return 2
  | _ => do
    IO.eprintln "error: the arguments make no command"
    return 2

end Strongbox

open Strongbox in
def main (args : List String) : IO UInt32 := do
  let values ← environmentNames.mapM fun name => return (name, ← IO.getEnv name)
  match Invocation.parse args fun name => (values.lookup name).join with
  | .error u => refuse u
  | .ok i =>
    let now := (← Std.Time.Timestamp.now).toNanosecondsSinceUnixEpoch.val.toNat
    let (code, out, err) := Invocation.ending (i.run (isolated ⟨now⟩)).1
    IO.print out
    IO.eprint err
    return code
