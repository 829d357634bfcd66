import Strongbox.Proofs.Download.Opening
import Strongbox.Proofs.Passphrase
import Strongbox.Proofs.Text.Hex

/-!
# What accepted settings are good for

The check of the settings looks at where to listen, the secret of the tokens and the number of
workers, but asks of the key only that something is said of it. What is said is read when the key
is needed. So settings that pass the check may still give no key, and a service with them starts
exactly if they do.

## Main definitions

* `Settings.HasKey`: the key settings in force name a key.

## Main statements

* `Settings.exists_key`, `Settings.key_of_not_hasKey`: when settings give a key.
* `Settings.validate_of_load`: settings that are loaded have passed the check.
* `Settings.starts_iff_hasKey`: what a service finds in settings that pass the check.
-/

namespace Strongbox

/-! ## Digits -/

theorem Hex.exists_parse_key {text : String} (length : (Text.trim text.toList).length = 64)
    (digits : ∀ c ∈ Text.trim text.toList, IsDigit c) :
    ∃ key : Key, parse Key.length text = .ok key.bytes := by
  obtain ⟨b, read⟩ : ∃ b, parse Key.length text = .ok b := exists_parse_iff.2 ⟨length, digits⟩
  exact ⟨⟨b, (parse_eq_ok_iff.1 read).2⟩, read⟩

@[simp] theorem Key.ofBytes?_bytes (key : Key) : Key.ofBytes? key.bytes = some key :=
  dif_pos key.length_eq

namespace Settings

variable {s : Settings} {file : Option (String × Option Bytes)}
  {environment : String → Option String}

/-! ## The key -/

/-- The key settings in force name a key. Digits come first, and then there are sixty-four of them
between blanks; or else there is a passphrase with a salt to derive from. -/
def HasKey (s : Settings) : Prop :=
  match s.encryptionKey, s.encryptionPassphrase, s.keySalt with
  | some digits, _, _ =>
    (Text.trim digits.toList).length = 64 ∧ ∀ c ∈ Text.trim digits.toList, Hex.IsDigit c
  | none, some passphrase, some salt => Derivable (Bytes.ofString passphrase) (Bytes.ofString salt)
  | none, _, _ => False

theorem exists_key (named : s.HasKey) : ∃ key, s.key = .ok key := by
  obtain ⟨_, _, _, _, digits?, passphrase?, salt?⟩ := s
  match digits?, passphrase?, salt? with
  | some digits, _, _ =>
    obtain ⟨key, read⟩ := Hex.exists_parse_key named.1 named.2
    refine ⟨key, bind_eq_ok_iff.2 ⟨key.bytes, mapError_eq_ok_iff.2 read, ?_⟩⟩
    rw [Key.ofBytes?_bytes]
    rfl
  | none, some passphrase, some salt => exact exists_deriveKey named
  | none, some _, none => exact named.elim
  | none, none, _ => exact named.elim

theorem key_of_not_hasKey (unnamed : ¬ s.HasKey) : ∃ text, s.key = .error (.config text) := by
  obtain ⟨_, _, _, _, digits?, passphrase?, salt?⟩ := s
  match digits?, passphrase?, salt? with
  | some digits, _, _ =>
    have unread : ¬ ∃ b, Hex.parse Key.length digits = .ok b := Hex.exists_parse_iff.not.2 unnamed
    obtain ⟨text, failed⟩ := Hex.exists_failure_of_unread unread
    refine ⟨text, ?_⟩
    simp only [key, failed]
    rfl
  | none, some passphrase, some salt => exact deriveKey_of_not_derivable unnamed
  | none, some _, none => exact ⟨_, rfl⟩
  | none, none, _ => exact ⟨_, rfl⟩

/-! ## The check -/

theorem listenAddress_of_validate (accepted : s.validate = .ok ()) :
    ∃ a, s.listenAddress = .ok a :=
  let ⟨a, found, _⟩ := bind_eq_ok_iff.1 accepted
  ⟨a, found⟩

theorem validate_of_load (loaded : load file environment = .ok s) : s.validate = .ok () := by
  -- The check comes last, whatever the file and the environment said.
  have checked (read : Settings × Except Failure Unit) (rest : (do
      read.2
      read.1.validate
      return read.1) = Except.ok s) : s.validate = .ok () := by
    obtain ⟨_, -, rest⟩ := bind_eq_ok_iff.1 rest
    obtain ⟨_, accepted, rest⟩ := bind_eq_ok_iff.1 rest
    cases rest
    exact accepted
  cases file with
  | none => exact checked (override {} environment) loaded
  | some given =>
    obtain ⟨before, -, rest⟩ := bind_eq_ok_iff.1 loaded
    exact checked (before.override environment) rest

/-- What the transfer engines need is there if there is a key and a worker. -/
theorem transfer_of_key {key : Key} (h : 0 < s.workers) (given : s.key = .ok key) :
    s.transfer = .ok ⟨s.workers, key, h⟩ :=
  bind_eq_ok_iff.2 ⟨key, given, dif_pos h⟩

/-- Without a key the transfer engines do not start, for the same reason. -/
theorem transfer_of_key_eq_error {f : Failure} (failed : s.key = .error f) :
    s.transfer = .error f := by
  rw [transfer, failed]
  rfl

/-- Settings that pass the check, as all that are loaded do, say where to listen. If their key
settings name a key, then it is given, and the transfer engines get it with the workers asked for.
If not, neither is there, and both times the settings are blamed in the same words. -/
theorem starts_iff_hasKey
    (accepted : s.validate = .ok () ∨ ∃ file environment, load file environment = .ok s) :
    (∃ a, s.listenAddress = .ok a) ∧
      (s.HasKey ∧ (∃ key t, s.key = .ok key ∧ s.transfer = .ok t ∧ t.key = key ∧
          t.workers = s.workers) ∨
        ¬ s.HasKey ∧ ∃ text, s.key = .error (.config text) ∧
          s.transfer = .error (.config text)) := by
  have accepted : s.validate = .ok () :=
    accepted.elim id fun ⟨_, _, loaded⟩ => validate_of_load loaded
  refine ⟨listenAddress_of_validate accepted, ?_⟩
  by_cases named : s.HasKey
  · obtain ⟨key, given⟩ := exists_key named
    exact .inl ⟨named, key, _, given, transfer_of_key (workers_pos_of_validate accepted) given,
      rfl, rfl⟩
  · obtain ⟨text, failed⟩ := key_of_not_hasKey named
    exact .inr ⟨named, text, failed, transfer_of_key_eq_error failed⟩

/-- With thirty-two bytes in capital digits between blanks a service has its key, with a passphrase
alone it has none. -/
theorem starts_iff_hasKey_of_digits_and_passphrase :
    let digits := " 000102030405060708090A0B0C0D0E0F101112131415161718191A1B1C1D1E1F\n"
    let environment : String → Option String := fun name =>
      [("VAULT_JWT_SECRET", "x"), ("VAULT_ENCRYPTION_KEY", digits)].lookup name
    let loaded : Settings := { tokenSecret := "x", encryptionKey := some digits }
    let bare : Settings := { tokenSecret := "x", encryptionPassphrase := some "correct horse" }
    load none environment = .ok loaded ∧ bare.validate = .ok () ∧
      (∃ key t, loaded.key = .ok key ∧ loaded.transfer = .ok t ∧ t.key = key ∧ t.workers = 4) ∧
      ∃ text, bare.key = .error (.config text) ∧ bare.transfer = .error (.config text) := by
  intro digits environment loaded bare
  have read : load none environment = .ok loaded := by
    unfold environment loaded digits
    rfl
  have accepted : bare.validate = .ok () := by
    unfold bare
    rfl
  have all : (Text.trim digits.toList).all (decide <| Hex.IsDigit ·) = true := by decide +kernel
  have named : loaded.HasKey := And.intro (by decide +kernel) fun c hc =>
    of_decide_eq_true (List.all_eq_true.1 all c hc)
  refine ⟨read, accepted, ?_, ?_⟩
  · exact ((starts_iff_hasKey (.inr ⟨none, environment, read⟩)).2.resolve_right
      fun other => other.1 named).2
  · exact ((starts_iff_hasKey (.inl accepted)).2.resolve_left fun other => other.1.elim).2

/-- The check takes two digits for a key, though they do not name one. -/
theorem accepted_of_two_digits :
    let environment : String → Option String := fun name =>
      [("VAULT_JWT_SECRET", "x"), ("VAULT_ENCRYPTION_KEY", "ab")].lookup name
    let s : Settings := { tokenSecret := "x", encryptionKey := some "ab" }
    let f : Failure := .config "expected 32 bytes (64 hex chars), got 1"
    load none environment = .ok s ∧ s.validate = .ok () ∧ s.key = .error f ∧
      s.transfer = .error f :=
  ⟨rfl, rfl, rfl, rfl⟩

end Settings

end Strongbox
