/-!
# Failures

The one error type of the library: what went wrong, and the sentence that says so.
-/

namespace Strongbox

inductive Failure where
  /-- The file system refused. -/
  | io (text : String)
  /-- A peer broke the order of the conversation. -/
  | protocol (text : String)
  /-- A chunk could not be sealed. -/
  | encryption (text : String)
  /-- A chunk could not be opened. -/
  | decryption (text : String)
  /-- The store could not do its work. -/
  | persistence (text : String)
  /-- A chunk of a file is written once only. -/
  | duplicateChunk (file : Int) (index : Nat)
  /-- A request carries values that do not fit together. -/
  | validation (text : String)
  /-- No such file for this caller. -/
  | notFound
  /-- The caller has not proved an identity. -/
  | unauthenticated (text : String)
  /-- A setting is missing or malformed. -/
  | config (text : String)
  /-- The other side cannot be reached, or answered out of turn. -/
  | transport (text : String)
  /-- Several workers failed. -/
  | many (causes : List Failure)
  deriving Repr, Inhabited

namespace Failure

mutual
def message : Failure → String
  | io text => "I/O error: " ++ text
  | protocol text => "protocol error: " ++ text
  | encryption text => "encryption failed: " ++ text
  | decryption text => "decryption failed: " ++ text
  | persistence text => "persistence error: " ++ text
  | duplicateChunk file index =>
      "chunk " ++ toString index ++ " of file " ++ toString file ++ " already stored"
  | validation text => "validation error: " ++ text
  | notFound => "file not found"
  | unauthenticated text => "unauthenticated: " ++ text
  | config text => "configuration error: " ++ text
  | transport text => "transport error: " ++ text
  | many causes =>
      toString causes.length ++ " worker(s) failed: " ++ "; ".intercalate (messages causes)

def messages : List Failure → List String
  | [] => []
  | f :: rest => message f :: messages rest
end

theorem messages_eq_map (fs : List Failure) : messages fs = fs.map message := by
  induction fs with
  | nil => rfl
  | cons f rest ih => simp [messages, ih]

theorem message_many (fs : List Failure) : (many fs).message =
    toString fs.length ++ " worker(s) failed: " ++ "; ".intercalate (fs.map message) := by
  rw [← messages_eq_map]
  unfold message
  with_reducible rfl

/-- Several failures as one: none, the single one itself, or all of them together. -/
def collect : List Failure → Option Failure
  | [] => none
  | [f] => some f
  | fs => some (many fs)

@[simp] theorem collect_eq_none_iff (fs : List Failure) : collect fs = none ↔ fs = [] := by
  match fs with
  | [] => simp [collect]
  | [_] => simp [collect]
  | _ :: _ :: _ => simp [collect]

end Failure

/-- How a call ends without an answer: it reports a cause, or it breaks down where there is no
result to go on with. -/
inductive Halt (ε : Type) where
  | failed (cause : ε)
  | aborted
  deriving Repr, Inhabited

/-- The same end, with the cause told in another way. -/
def Halt.map {ε ζ : Type} (f : ε → ζ) : Halt ε → Halt ζ
  | failed cause => failed (f cause)
  | aborted => aborted

instance {ε : Type} : MonadLift (Except ε) (Except (Halt ε)) where
  monadLift := Except.mapError Halt.failed

/-! ## Answers of two steps -/

theorem bind_eq_ok_iff {ε α β : Type} {x : Except ε α} {f : α → Except ε β} {b : β} :
    x >>= f = .ok b ↔ ∃ a, x = .ok a ∧ f a = .ok b := by
  cases x with
  | ok a => exact ⟨fun h => ⟨a, rfl, h⟩, fun ⟨_, h, hf⟩ => Except.ok.inj h ▸ hf⟩
  | error e => exact ⟨nofun, nofun⟩

@[simp] theorem liftM_ok {ε α : Type} (a : α) :
    (liftM (.ok a : Except ε α) : Except (Halt ε) α) = .ok a := rfl

@[simp] theorem liftM_error {ε α : Type} (e : ε) :
    (liftM (.error e : Except ε α) : Except (Halt ε) α) = .error (.failed e) := rfl

theorem liftM_eq_ok_iff {ε α : Type} {x : Except ε α} {a : α} :
    (liftM x : Except (Halt ε) α) = .ok a ↔ x = .ok a := by
  cases x <;> constructor <;> intro h <;> cases h <;> rfl

theorem mapError_eq_ok_iff {ε ζ α : Type} {x : Except ε α} {f : ε → ζ} {a : α} :
    x.mapError f = .ok a ↔ x = .ok a := by
  cases x <;> constructor <;> intro h <;> cases h <;> rfl

end Strongbox
