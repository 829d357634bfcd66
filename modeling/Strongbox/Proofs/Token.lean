import Strongbox.Proofs.Token.Claims
import Strongbox.Token

/-!
# What a token that is taken proves
-/

namespace Strongbox.Token

variable {secret document : Bytes} {now : Nat} {user : Int} {item : Json}

/-! ## Tokens -/

/-- The parts of a token, as they are written. -/
structure Parts where
  header : Bytes
  payload : Bytes
  tag : Bytes
  pointless : point ∉ header ∧ point ∉ payload ∧ point ∉ tag

namespace Parts

def message (p : Parts) : Bytes := p.header ++ point :: p.payload

def bytes (p : Parts) : Bytes := p.message ++ point :: p.tag

end Parts

/-- A document is an object with these members. -/
def Lists (document : Bytes) (members : List Member) : Prop :=
  (Json.parse? document).bind Json.members? = some members

/-- A value names a choice: by a text, or by an object with the name and nothing else. -/
def Names (item : Json) (name : String) : Prop :=
  item.text? = some name ∨ ∃ raw, item = .object [(raw, .null)] ∧ Json.plain? raw = some name

/-- The members of a payload grant a user time, up to a last second, and address no one. A text
whose escapes stand for no characters is no text. -/
structure Grants (members : List Member) (user : Int) (last : Nat) : Prop where
  sub : ∃ item, Json.member? "sub" members = some (some item) ∧ item.integer? = some user
  exp : ∃ item, Json.member? "exp" members = some (some item) ∧ item.word? = some last
  aud : ∀ item, ("aud", item) ∈ members → item.text? = none ∧ item.texts? = none

/-- The parts of a token prove a user: they are signed with the secret in the way that the header
names, and the time that the payload grants is not over for more than a minute. -/
structure Proves (secret : Bytes) (now : Nat) (p : Parts) (user : Int) : Prop where
  signed : Base64Url.decode? p.tag = some (Sha256.hmac secret p.message)
  algorithm : ∃ document members item, Base64Url.decode? p.header = some document ∧
    Lists document members ∧ Json.member? "alg" members = some (some item) ∧ Names item "HS256"
  granted : ∃ document members last, Base64Url.decode? p.payload = some document ∧
    Lists document members ∧ Grants members user last ∧ now ≤ last + 60

/-! ## Reading a token -/

theorem orFault_eq_ok_iff {α : Type} {f : Fault} {o : Option α} {a : α} :
    orFault f o = .ok a ↔ o = some a := by
  cases o <;> simp [orFault]

/-- The point is no digit, so no part that can be decoded has one. -/
theorem point_notMem_of_decode? {digits : Bytes} (h : Base64Url.decode? digits = some document) :
    point ∉ digits := by
  obtain ⟨values, hv, -⟩ := Option.bind_eq_some_iff.1 h
  intro hp
  obtain ⟨value, -, hd⟩ := exists_of_forall₂ (forall₂_of_mapM hv) hp
  exact absurd hd (by simp [point, Base64Url.digitValue?])

theorem names_of_choice? {name : String} (h : choice? item = some name) : Names item name := by
  unfold choice? at h
  split at h
  · next raw => exact .inr ⟨raw, rfl, h⟩
  · exact .inl h

/-- The algorithm of a header is what its only such member names. -/
theorem named_of_headerAlgorithm? {name : String} (h : headerAlgorithm? document = some name) :
    ∃ members item, Lists document members ∧ Json.member? "alg" members = some (some item) ∧
      Names item name := by
  simp only [headerAlgorithm?, Option.bind_eq_bind, Option.bind_eq_some_iff] at h
  obtain ⟨-, -, j, hj, members, hm, -, -, item?, hi, item, rfl, hc⟩ := h
  exact ⟨members, item, Option.bind_eq_some_iff.2 ⟨j, hj, hm⟩, hi, names_of_choice? hc⟩

/-- Claims that are found and address no one are granted. -/
theorem grants_of_claims? {claims : Claims} (h : claims? document = some claims)
    (ha : isAddressed? document = some false) :
    ∃ members, Lists document members ∧ Grants members claims.user claims.expiry := by
  simp only [claims?, Option.bind_eq_bind, Option.bind_eq_some_iff] at h
  obtain ⟨j, hj, members, hm, user?, hu, user, rfl, n, hn, exp?, he, exp, rfl, last, hl, hc⟩ := h
  cases hc
  have lists : Lists document members := Option.bind_eq_some_iff.2 ⟨j, hj, hm⟩
  exact ⟨members, lists, ⟨user, hu, hn⟩, ⟨exp, he, hl⟩, fun item hi => not_addressed lists ha hi⟩

theorem check_eq_ok_iff {α : Type} {c : Prop} [Decidable c] {f : Fault}
    {onFault : PUnit → Except Fault α} {rest : Except Fault α} {a : α} :
    (if c then throw f >>= onFault else rest) = .ok a ↔ ¬ c ∧ rest = .ok a := by
  split
  · next hc => exact ⟨nofun, fun h => absurd hc h.1⟩
  · next hc => exact ⟨fun h => ⟨hc, h⟩, And.right⟩

theorem proves_of_verify {token : String} (h : verify secret now token = .ok user) :
    ∃ parts : Parts, Bytes.ofString token = parts.bytes ∧ Proves secret now parts user := by
  simp only [verify, bind_eq_ok_iff, orFault_eq_ok_iff, check_eq_ok_iff, ne_eq, not_not] at h
  obtain ⟨⟨message, tag⟩, htag, ⟨header, payload⟩, hcut, head, hhead, _, hname, rfl, _, hsigned,
    rfl, body, hbody, claims, hclaims, addressed, hto, htime, hfree, hu⟩ := h
  cases hu
  obtain rfl := Bool.eq_false_iff.2 hfree
  obtain ⟨whole, tagless⟩ := (Text.cutLast?_eq_some_iff ..).1 htag
  obtain ⟨rfl, payloadless⟩ := (Text.cutLast?_eq_some_iff ..).1 hcut
  obtain ⟨_, _, lists, only, names⟩ := named_of_headerAlgorithm? hname
  obtain ⟨_, lists', grants⟩ := grants_of_claims? hclaims hto
  exact ⟨⟨header, payload, tag, point_notMem_of_decode? hhead, payloadless, tagless⟩, whole,
    hsigned, ⟨head, _, _, hhead, lists, only, names⟩, body, _, _, hbody, lists', grants,
    Nat.le_of_not_lt htime⟩

/-- A token of user 7 that is good up to second 1100 is still taken a minute later. -/
example : (verify [1, 2, 3] 1160 ("eyJ0eXAiOiJKV1QiLCJhbGciOiJIUzI1NiJ9." ++
    "eyJzdWIiOjcsImV4cCI6MTEwMH0.N3-qnNLTqRjLok4-wCuVJY08IUsHwGxZAeCIYHzP7YA")).toOption =
      some 7 := by
  decide +kernel

end Strongbox.Token
