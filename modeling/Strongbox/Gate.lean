import Strongbox.Status
import Strongbox.Text.Blank
import Strongbox.Token

/-!
# Gate

Every call passes a gate that reads the caller's token from a header.
-/

namespace Strongbox

/-- Bytes that a header value may hold: no controls but the tabulator. -/
def isHeaderByte (b : UInt8) : Bool := b == 9 || (32 ≤ b && b != 127)

/-- A header value. -/
structure Header where
  bytes : Bytes
  valid : bytes.all isHeaderByte = true
  deriving DecidableEq

namespace Header

def ofBytes? (b : Bytes) : Option Header :=
  if h : b.all isHeaderByte = true then some ⟨b, h⟩ else none

def isVisible (b : UInt8) : Bool := b == 9 || (32 ≤ b && b < 127)

/-- The value as text, if all of it is visible. -/
def text? (h : Header) : Option String :=
  if h.bytes.all isVisible then
    some (String.ofList (h.bytes.map fun b => Char.ofNat b.toNat))
  else none

def scheme : String := "Bearer "

def bearer (token : String) : Except Failure Header :=
  match ofBytes? (Bytes.ofString (scheme ++ token)) with
  | some h => .ok h
  | none => .error (.config "token is not a valid header value")

def token? (text : String) : Option String :=
  if scheme.toList.isPrefixOf text.toList then
    some (String.ofList (Text.trim (text.toList.drop scheme.length)))
  else none

end Header

namespace Gate

/-- The user that the headers of a call prove; only the first one counts. -/
def identify (secret : Bytes) (now : Nat) (headers : List Header) : Except Failure Int :=
  match headers with
  | [] => .error (.unauthenticated "authorization header not provided")
  | header :: _ =>
    match header.text? with
    | none => .error (.unauthenticated "authorization header is not ASCII")
    | some text =>
      match Header.token? text with
      | none => .error (.unauthenticated "invalid authorization format")
      | some token => (Token.verify secret now token).mapError Token.Fault.failure

/-- The gate's answer to a call: the user, or the status that rejects the call. -/
def enter (secret : Bytes) (now : Nat) (headers : List Header) : Except Status Int :=
  (identify secret now headers).mapError fun f => ⟨.unauthenticated, f.message⟩

/-- Who is calling, as far as the gate has said. -/
def caller (identity : Option Int) : Except Status Int :=
  match identity with
  | some user => .ok user
  | none => .error ⟨.unauthenticated, "user not authenticated"⟩

end Gate

end Strongbox
