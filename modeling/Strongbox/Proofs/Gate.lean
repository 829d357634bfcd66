import Strongbox.Proofs.Token
import Strongbox.Service

/-!
# What passes the gate

## Main definitions

* `Gate.Credential`: a header value proves a user.
* `Service.Admits`, `Service.Rejects`: a call with some headers is performed for a user, or nothing
  happens.

## Main statements

* `Service.admits_or_rejects`: only a credential in the first header lets a call through; all other
  calls are unauthenticated.
-/

namespace Strongbox

variable {secret : Bytes} {headers : List Header} {header : Header} {user : Int}

namespace Header

/-- A value that is text is made of visible bytes, one for each character. -/
theorem visible_of_text? {text : String} (h : header.text? = some text) :
    (∀ b ∈ header.bytes, b = 9 ∨ 32 ≤ b ∧ b < 127) ∧ Bytes.ofString text = header.bytes := by
  unfold text? at h
  split at h
  · next visible =>
    cases h
    have visible : ∀ b ∈ header.bytes, b = 9 ∨ 32 ≤ b ∧ b < 127 := by
      simpa [isVisible] using visible
    refine ⟨visible, Bytes.ofString_ascii fun b hb => ?_⟩
    obtain rfl | ⟨-, h⟩ := visible b hb
    · decide
    · exact UInt8.lt_trans h (by decide)
  · cases h

theorem scheme_of_token? {text token : String} (h : token? text = some token) :
    ∃ rest, text = "Bearer " ++ String.ofList rest ∧ token = String.ofList (Text.trim rest) := by
  unfold token? at h
  split at h
  · next starts =>
    cases h
    obtain ⟨rest, hr⟩ := List.isPrefixOf_iff_prefix.1 starts
    have whole : text = "Bearer " ++ String.ofList rest := by
      rw [← String.toList_inj, String.toList_append, String.toList_ofList (l := rest)]
      exact hr.symm
    refine ⟨rest, whole, ?_⟩
    rw [← hr]
    rfl
  · cases h

end Header

namespace Gate

/-- A header value proves a user: behind the scheme, and with blanks around it that do not count,
there is a token that proves the user. -/
structure Credential (secret : Bytes) (now : Nat) (header : Header) (user : Int) : Prop where
  visible : ∀ b ∈ header.bytes, b = 9 ∨ 32 ≤ b ∧ b < 127
  token : ∃ (rest : List Char) (parts : Token.Parts),
    header.bytes = Bytes.ofString ("Bearer " ++ String.ofList rest) ∧
    Bytes.ofString (String.ofList (Text.trim rest)) = parts.bytes ∧
    Token.Proves secret now parts user

/-- The user that headers prove has a credential in the first of them. -/
theorem credential_of_identify {now : Nat} (h : identify secret now headers = .ok user) :
    ∃ header more, headers = header :: more ∧ Credential secret now header user := by
  unfold identify at h
  split at h
  · cases h
  next header more =>
  split at h
  · cases h
  next text htext =>
  split at h
  · cases h
  next token htoken =>
  obtain ⟨visible, whole⟩ := Header.visible_of_text? htext
  obtain ⟨rest, rfl, rfl⟩ := Header.scheme_of_token? htoken
  obtain ⟨parts, written, proves⟩ := Token.proves_of_verify (mapError_eq_ok_iff.1 h)
  exact ⟨header, more, rfl, visible, rest, parts, whole.symm, written, proves⟩

theorem enter_take_one (secret : Bytes) (now : Nat) (headers : List Header) :
    enter secret now (headers.take 1) = enter secret now headers := by
  cases headers <;> rfl

end Gate

namespace Service

/-- Every request with these headers is performed for the user. -/
def Admits (secret : Bytes) (now : Moment) (headers : List Header) (user : Int) : Prop :=
  ∀ (σ : Type) [Store σ] (t : Transfer) (schedules : Schedules) (request : Request) (s : σ),
    serve secret t schedules now headers request s = perform t schedules now user request s

/-- Every request with these headers is answered as unauthenticated, and leaves the store as it
was. -/
def Rejects (secret : Bytes) (now : Moment) (headers : List Header) : Prop :=
  ∃ status : Status, status.code = .unauthenticated ∧
    ∀ (σ : Type) [Store σ] (t : Transfer) (schedules : Schedules) (request : Request) (s : σ),
      serve secret t schedules now headers request s = (.error (.failed status), s)

/-- A call is performed for a user only if its first header is a credential of that user. Every
other call is unauthenticated, and leaves the store as it was. Headers after the first do not
count. -/
theorem admits_or_rejects (secret : Bytes) (now : Moment) (headers : List Header) :
    ((∃ header more user, headers = header :: more ∧
        Gate.Credential secret now.seconds.toNat header user ∧ Admits secret now headers user) ∨
      Rejects secret now headers) ∧
    ∀ (σ : Type) [Store σ] (t : Transfer) (schedules : Schedules) (request : Request) (s : σ),
      serve secret t schedules now headers request s =
        serve secret t schedules now (headers.take 1) request s := by
  constructor
  · cases h : Gate.identify secret now.seconds.toNat headers with
    | ok user =>
      obtain ⟨header, more, rfl, credential⟩ := Gate.credential_of_identify h
      refine .inl ⟨header, more, user, rfl, credential, fun σ _ t schedules request s => ?_⟩
      simp only [serve, Gate.enter, h]
      rfl
    | error f =>
      refine .inr ⟨⟨.unauthenticated, f.message⟩, rfl, fun σ _ t schedules request s => ?_⟩
      simp only [serve, Gate.enter, h]
      rfl
  · intro σ _ t schedules request s
    rw [serve, serve, Gate.enter_take_one]

end Service

end Strongbox
