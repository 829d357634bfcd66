import Strongbox.Json.Reader

/-!
# Claims

The second part of a token: whom it names and how long. A document of claims is read twice. The
first reading finds the user and the last second, and passes over all else. The second finds out
whether the token is addressed to someone. There a member that will not do counts as not there, and
the rest is read from where it went wrong.
-/

namespace Strongbox.Token

/-- What a token says: a user, and the last second for which it is meant. -/
structure Claims where
  user : Int
  expiry : Nat
  deriving Repr, DecidableEq

def claims? (document : Bytes) : Option Claims := do
  let members ← (← Json.parse? document).members?
  let user ← (← (← Json.member? "sub" members)).integer?
  let expiry ← (← (← Json.member? "exp" members)).word?
  return ⟨user, expiry⟩

/-! ## Addressees -/

open Json (Reader)
open Json.Reader

def timeMembers : List String := ["exp", "nbf"]

def partyMembers : List String := ["iss", "aud"]

def userMember : String := "sub"

/-- Takes what has to be taken of a value to see whether it counts seconds: of a list or an object
only the beginning, and the end if it comes next. -/
def timeValue : Reader Unit := do
  blanks
  match ← peek with
  | some 0x5b => mark 0x5b; endList
  | some 0x7b => mark 0x7b; endObject
  | _ => let _ ← scalar

/-- Takes the value of a member; gives the shape of one that tells a party, if it will do. -/
def partyShape? (name : String) : Reader (Option Shape) := do
  if name ∈ partyMembers then attempt (shape (Json.maxLevels - 1))
  else if name ∈ timeMembers then
    let _ ← attempt timeValue
    return none
  else if name = userMember then
    let _ ← attempt (do blanks; scalar)
    return none
  else
    skip ((← get).length + 1)
    return none

/-- Takes a document; gives its members, each with the shape of its party. -/
def parties : Reader (List (String × Option Shape)) := do
  mark 0x7b
  let all ← members quoted partyShape? ((← get).length + 1) true
  endObject
  return all

/-- Whether a document of claims is addressed to someone, by a text or a list of texts. No member
with a meaning may repeat, not even without a value. -/
def isAddressed? (document : Bytes) : Option Bool := do
  let all ← takesAll parties document
  for name in userMember :: timeMembers ++ partyMembers do
    let _ ← Json.member? name all
  return (all.lookup "aud").join matches some .text | some .texts

end Strongbox.Token
