import Strongbox.Failure
import Strongbox.Text.Blank
import Strongbox.Text.Quoted
import Strongbox.Text.Split

/-!
# File names

Reducing a name that a peer sent to a bare name within one directory.
-/

namespace Strongbox.Name

/-- The directory itself and its parent, which name no entry of their own. -/
def isDots (part : List Char) : Bool := part == ['.'] || part == ['.', '.']

def slashed (name : List Char) : List Char := name.map fun c => if c = '\\' then '/' else c

def components (name : List Char) : List (List Char) :=
  (Text.split '/' (slashed name)).filter fun part => !part.isEmpty && !isDots part

/-- The last component without surrounding blanks, unless nothing usable is left. -/
def bare? (name : List Char) : Option (List Char) :=
  match (components name).getLast? with
  | none => none
  | some part =>
    let kept := Text.trim part
    if kept.isEmpty || isDots kept then none else some kept

/-- A name that stays within its directory. -/
def safe (name : String) : Except Failure String :=
  match bare? name.toList with
  | some kept => .ok (String.ofList kept)
  | none => .error (.validation ("unusable file name " ++ Text.quoted name))

end Strongbox.Name
