import Strongbox.Digest.Sha256
import Strongbox.Duration
import Strongbox.Failure
import Strongbox.Text.Base64Url
import Strongbox.Text.Split
import Strongbox.Token.Claims
import Strongbox.Token.Header
import Strongbox.Word

/-!
# Tokens

A token names a user until some time, under a signature that only who knows the secret can make. It
has three parts in base 64 with points between: a header, the claims, and the signature of both.
-/

namespace Strongbox.Token

inductive Fault where
  | malformed
  | encoding
  | document
  | algorithm
  | signature
  | expired
  | audience
  deriving Repr, DecidableEq

def Fault.text : Fault → String
  | malformed => "InvalidToken"
  | encoding => "Base64 error"
  | document => "JSON error"
  | algorithm => "InvalidAlgorithm"
  | signature => "InvalidSignature"
  | expired => "ExpiredSignature"
  | audience => "InvalidAudience"

def Fault.failure (f : Fault) : Failure := .unauthenticated ("invalid token: " ++ f.text)

/-- Seconds that a token is still taken after its time. -/
def leeway : Nat := 60

/-- The byte between the parts. -/
def point : UInt8 := 0x2e

/-! ## Writing -/

def algorithmName : String := "HS256"

def headerText : String := "\x7b\"typ\":\"JWT\",\"alg\":\"" ++ algorithmName ++ "\"\x7d"

def Claims.toText (c : Claims) : String :=
  "\x7b\"sub\":" ++ toString c.user ++ ",\"exp\":" ++ toString c.expiry ++ "\x7d"

def signature (secret message : Bytes) : Bytes := Sha256.hmac secret message

def sign (secret : Bytes) (c : Claims) : Bytes :=
  let message := Base64Url.encode (Bytes.ofString headerText) ++
    point :: Base64Url.encode (Bytes.ofString c.toText)
  message ++ point :: Base64Url.encode (signature secret message)

/-- A token for a user, good for `ttl` from `now` on. There is none past the last second that a word
of sixty-four bits can count. -/
def issue (secret : Bytes) (ttl now : Duration) (user : Int) : Option String :=
  let last := (now + ttl).seconds
  if last < Word.count64 then
    some (String.ofList ((sign secret ⟨user, last⟩).map fun b => Char.ofNat b.toNat))
  else none

/-! ## Reading -/

def orFault {α : Type} (f : Fault) : Option α → Except Fault α
  | some a => .ok a
  | none => .error f

/-- The user that a token names at a time. A token must not be addressed to anyone. -/
def verify (secret : Bytes) (now : Nat) (token : String) : Except Fault Int := do
  let (message, tag) ← orFault .malformed (Text.cutLast? point (Bytes.ofString token))
  let (header, payload) ← orFault .malformed (Text.cutLast? point message)
  let header ← orFault .encoding (Base64Url.decode? header)
  let algorithm ← orFault .document (headerAlgorithm? header)
  if algorithm ≠ algorithmName then throw .algorithm
  let tag ← orFault .encoding (Base64Url.decode? tag)
  if tag ≠ signature secret message then throw .signature
  let payload ← orFault .encoding (Base64Url.decode? payload)
  let claims ← orFault .document (claims? payload)
  let addressed ← orFault .document (isAddressed? payload)
  if claims.expiry + leeway < now then throw .expired
  if addressed then throw .audience
  return claims.user

end Strongbox.Token
