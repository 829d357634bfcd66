import Strongbox.Json.Reader

/-!
# Headers

The first part of a token: how it is signed, and what else its writer wanted to say of it. Every
member with a meaning must have a value that fits, whether it is used or not; members without one
are texts.
-/

namespace Strongbox.Token

abbrev Member := String × Json

def isOptionalText (item : Json) : Bool := item matches .null || item.text?.isSome

def isOptionalTexts (item : Json) : Bool := item matches .null || item.texts?.isSome

def areUnique (names : List String) (members : List Member) : Bool :=
  names.all fun name => (Json.member? name members).isSome

/-- The choice that a value makes: the name of the choice, or an object with it as its only member
and nothing as the value. -/
def choice? : Json → Option String
  | .object [(name, .null)] => Json.plain? name
  | item => item.text?

/-! ## Keys -/

/-- Members of every key that are texts if they are there. -/
def keyTextMembers : List String := ["use", "kid", "x5u", "x5t", "x5t#S256"]

def keyListMembers : List String := ["key_ops", "x5c"]

/-- Whether a value names what a key is good for. An unknown name will do, and so will an empty
object beside it. -/
def isKeyPurpose : Json → Bool
  | .null => true
  | .object [(name, .object [])] => (Json.plain? name).isSome
  | item => (choice? item).isSome

def admitsKeyMember : Member → Bool
  | (name, item) =>
    if name ∈ keyTextMembers then isOptionalText item
    else if name ∈ keyListMembers then isOptionalTexts item
    else if name = "alg" then isKeyPurpose item
    else true

/-- A kind of key: the name of the kind, whether it lies on a curve, and the texts that make up a
key of the kind. -/
structure KeyKind where
  name : String
  onCurve : Bool
  parts : List String
  deriving Repr

def keyKinds : List KeyKind := [
  ⟨"EC", true, ["x", "y"]⟩,
  ⟨"RSA", false, ["n", "e"]⟩,
  ⟨"oct", false, ["k"]⟩,
  ⟨"OKP", true, ["x"]⟩]

def curves : List String := ["P-256", "P-384", "P-521", "Ed25519"]

def hasMember (name : String) (test : Json → Bool) (members : List Member) : Bool :=
  (Json.member? name members).any (·.any test)

/-- Whether members make up a key of a kind. What the kind has no use for is passed over. -/
def KeyKind.fits (kind : KeyKind) (members : List Member) : Bool :=
  hasMember "kty" (fun item => choice? item == some kind.name) members &&
    (!kind.onCurve || hasMember "crv" (fun item => (choice? item).any (· ∈ curves)) members) &&
    kind.parts.all fun part => hasMember part (fun item => item.text?.isSome) members

def admitsKey (item : Json) : Bool :=
  item.members?.any fun members =>
    members.all admitsKeyMember && areUnique ("alg" :: keyTextMembers ++ keyListMembers) members &&
      keyKinds.any (·.fits members)

/-! ## Headers -/

def algorithms : List String :=
  ["HS256", "HS384", "HS512", "ES256", "ES384", "RS256", "RS384", "RS512", "PS256", "PS384",
    "PS512", "EdDSA"]

/-- Header members that are texts if they are there. -/
def textMembers : List String :=
  ["typ", "cty", "jku", "kid", "x5u", "x5t", "x5t#S256", "enc", "zip", "url", "nonce"]

def listMembers : List String := ["x5c", "crit"]

/-- Whether a header may have a member; members without a meaning are texts. -/
def admitsMember : Member → Bool
  | (name, item) =>
    if name ∈ textMembers then isOptionalText item
    else if name ∈ listMembers then isOptionalTexts item
    else if name = "jwk" then item matches .null || admitsKey item
    else if name = "alg" then (choice? item).any (· ∈ algorithms)
    else item.text?.isSome

def headerAlgorithm? (header : Bytes) : Option String := do
  guard (Json.isSound header)
  let members ← (← Json.parse? header).members?
  guard (members.all admitsMember && areUnique ("jwk" :: textMembers ++ listMembers) members)
  choice? (← (← Json.member? "alg" members))

end Strongbox.Token
