import Strongbox.Proofs.Cipher

/-!
# Nothing opens but what was sealed

The keystream is undone by itself, and the authenticator depends on the body only. So sealed bytes
tell the one text that they can be the sealed form of, and they open if they are.

## Main definitions

* `Sealing.candidate`: the text that sealed bytes would give.

## Main statements

* `Sealing.open?_eq_some_iff`: bytes open to a text if and only if they are its sealed form.
* `Key.opens_what_it_seals`: a key opens what it seals, and turns away everything else.
-/

namespace Strongbox

namespace Sealing

variable {key nonce text sealed : Bytes}

/-- The text that sealed bytes would give, were their authenticator right. -/
def candidate (key nonce sealed : Bytes) : Bytes :=
  crypt key nonce (sealed.take (sealed.length - tagLength))

theorem candidate_close (key nonce text : Bytes) :
    candidate key nonce (close key nonce text) = text := by
  have body : (close key nonce text).take text.length = crypt key nonce text := by
    rw [close, List.take_append_of_le_length (by simp), List.take_of_length_le (by simp)]
  rw [candidate, close_length, Nat.add_sub_cancel, body, crypt_crypt]

/-- The text of sealed bytes, sealed again, has their body, and the authenticator of that body. -/
theorem close_candidate (key nonce sealed : Bytes) :
    let body := sealed.take (sealed.length - tagLength)
    close key nonce (candidate key nonce sealed) = body ++ authenticator key nonce body := by
  simp only [close, candidate, crypt_crypt]

/-- Bytes open to a text if and only if they are its sealed form. -/
theorem open?_eq_some_iff :
    open? key nonce sealed = some text ↔ fits text = true ∧ sealed = close key nonce text := by
  constructor
  · intro h
    simp only [open?] at h
    split at h
    · cases h
    · split at h
      · rename_i right
        simp only [Bool.and_eq_true, beq_iff_eq] at right
        obtain ⟨short, tag_eq⟩ := right
        have text_eq : candidate key nonce sealed = text := Option.some.inj h
        have closed := close_candidate key nonce sealed
        simp only [tag_eq, List.take_append_drop] at closed
        refine ⟨?_, text_eq ▸ closed.symm⟩
        rw [← text_eq, candidate, fits, crypt_length]
        exact short
      · cases h
  · rintro ⟨short, rfl⟩
    exact open?_close short

end Sealing

namespace Key

variable {k : Key} {nonce : Nonce} {plain c : Bytes} {s : Sealed}

theorem sealWith_eq_ok_iff :
    k.sealWith nonce.bytes plain = .ok s ↔ Sealing.fits plain = true ∧
      s = ⟨Sealing.close k.bytes nonce.bytes plain, algorithmName, nonce.bytes⟩ := by
  constructor
  · intro h
    unfold sealWith at h
    split at h <;> cases h
    exact ⟨‹_›, rfl⟩
  · rintro ⟨short, rfl⟩
    exact sealWith_eq_ok short

/-- With a nonce of the right length, only the authenticator can be wrong. -/
theorem openWith_nonce (k : Key) (nonce : Nonce) (c : Bytes) :
    k.openWith nonce.bytes c =
      match Sealing.open? k.bytes nonce.bytes c with
      | some plain => .ok plain
      | none => .error (.decryption "authentication failed") :=
  if_neg (Decidable.not_not.2 nonce.length_eq)

/-- A chunk opens to a text if and only if it is what sealing the text gives. -/
theorem openWith_eq_ok_iff :
    k.openWith nonce.bytes c = .ok plain ↔
      k.sealWith nonce.bytes plain = .ok ⟨c, algorithmName, nonce.bytes⟩ := by
  have opens : k.openWith nonce.bytes c = .ok plain ↔
      Sealing.open? k.bytes nonce.bytes c = some plain := by
    rw [openWith_nonce]
    cases Sealing.open? k.bytes nonce.bytes c <;> simp
  rw [opens, Sealing.open?_eq_some_iff, sealWith_eq_ok_iff, Sealed.mk.injEq]
  simp only [and_true]

/-- A chunk that does not open is refused for its authenticator. -/
theorem openWith_of_ne (h : ∀ plain, k.openWith nonce.bytes c ≠ .ok plain) :
    k.openWith nonce.bytes c = .error (.decryption "authentication failed") := by
  have opens := openWith_nonce k nonce c
  cases hopen : Sealing.open? k.bytes nonce.bytes c with
  | none => rw [opens, hopen]
  | some plain =>
    rw [hopen] at opens
    exact absurd opens (h plain)

/-- What opens at all opens to the text that its body tells. -/
theorem eq_candidate (h : k.openWith nonce.bytes c = .ok plain) :
    plain = Sealing.candidate k.bytes nonce.bytes c := by
  obtain ⟨-, sealed⟩ := sealWith_eq_ok_iff.1 (openWith_eq_ok_iff.1 h)
  rw [(Sealed.mk.inj sealed).1, Sealing.candidate_close]

/-- A key opens what it seals, and nothing else. A chunk opens to a text if and only if it is what
sealing the text under the same nonce gives. Every text that is short enough can be sealed: sixteen
bytes are added, and it opens again. A chunk that differs from the sealed form of the text that it
would give, in whatever way, is refused for its authenticator. A nonce of another length opens
nothing. -/
theorem opens_what_it_seals (k : Key) (nonce : Nonce) (c : Bytes) :
    (∀ plain, k.openWith nonce.bytes c = .ok plain ↔
      k.sealWith nonce.bytes plain = .ok ⟨c, algorithmName, nonce.bytes⟩) ∧
    (∀ plain, Sealing.fits plain = true → ∃ s, k.sealWith nonce.bytes plain = .ok s ∧
      s.iv = nonce.bytes ∧ s.ciphertext.length = plain.length + 16 ∧
      k.openWith s.iv s.ciphertext = .ok plain) ∧
    (k.sealWith nonce.bytes (Sealing.candidate k.bytes nonce.bytes c) ≠
        .ok ⟨c, algorithmName, nonce.bytes⟩ →
      k.openWith nonce.bytes c = .error (.decryption "authentication failed")) ∧
    ∀ iv : Bytes, iv.length ≠ 24 → ∃ text, k.openWith iv c = .error (.decryption text) := by
  refine ⟨fun plain => openWith_eq_ok_iff, fun plain short => ?_, fun differs => ?_,
    fun iv other => ⟨_, if_pos other⟩⟩
  · have sealed : k.sealWith nonce.bytes plain = .ok _ := sealWith_eq_ok short
    exact ⟨_, sealed, rfl, Sealing.close_length _ _ _, openWith_eq_ok_iff.2 sealed⟩
  · refine openWith_of_ne fun plain opens => differs ?_
    rw [← eq_candidate opens]
    exact openWith_eq_ok_iff.1 opens

/-- Three bytes are sealed and opened. With one byte more, one byte less, or another first or last
byte, the chunk is refused. -/
theorem opens_what_it_seals_of_three_bytes :
    let k : Key := ⟨List.replicate 32 7, List.length_replicate⟩
    let nonce : Nonce := ⟨List.replicate 24 9, List.length_replicate⟩
    Sealing.fits [1, 2, 3] = true ∧ ∃ s, k.sealWith nonce.bytes [1, 2, 3] = .ok s ∧
      s.ciphertext.length = 19 ∧ k.openWith nonce.bytes s.ciphertext = .ok [1, 2, 3] ∧
      ∀ c ∈ [s.ciphertext ++ [0], s.ciphertext.dropLast, s.ciphertext.set 0 0,
          s.ciphertext.set 18 0],
        k.openWith nonce.bytes c = .error (.decryption "authentication failed") := by
  intro k nonce
  have short : Sealing.fits [1, 2, 3] = true := by decide
  obtain ⟨s, sealed, iv_eq, length_eq, opens⟩ := (opens_what_it_seals k nonce []).2.1 _ short
  let closed := Sealing.close k.bytes nonce.bytes [1, 2, 3]
  cases (sealWith_eq_ok short).symm.trans sealed
  have differs : ∀ c ∈ [closed ++ [0], closed.dropLast, closed.set 0 0, closed.set 18 0],
        c ≠ Sealing.close k.bytes nonce.bytes (Sealing.candidate k.bytes nonce.bytes c) := by
    decide +kernel
  refine ⟨short, _, sealed, length_eq, opens, fun c hc => ?_⟩
  refine (opens_what_it_seals k nonce c).2.2.1 fun same => differs c hc ?_
  exact (Sealed.mk.inj (sealWith_eq_ok_iff.1 same).2).1

end Key

end Strongbox
