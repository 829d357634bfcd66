import Strongbox.Failure

/-!
# Statuses

What a service call answers in place of a reply, and how failures cross the wire as statuses.
-/

namespace Strongbox

/-- The outcome codes of a service call, numbered from zero. -/
inductive Code where
  | ok | cancelled | unknown | invalidArgument | deadlineExceeded | notFound | alreadyExists
  | permissionDenied | resourceExhausted | failedPrecondition | aborted | outOfRange
  | unimplemented | internal | unavailable | dataLoss | unauthenticated
  deriving Repr, DecidableEq, Inhabited

namespace Code

/-- All codes in the order of their numbers. -/
def all : List Code := [ok, cancelled, unknown, invalidArgument, deadlineExceeded, notFound,
  alreadyExists, permissionDenied, resourceExhausted, failedPrecondition, aborted, outOfRange,
  unimplemented, internal, unavailable, dataLoss, unauthenticated]

/-- The code with a given number; a number without a code is `unknown`. -/
def ofInt (n : Int) : Code :=
  if 0 ≤ n then (all[n.toNat]?).getD unknown else unknown

def name : Code → String
  | ok => "Ok"
  | cancelled => "Cancelled"
  | unknown => "Unknown"
  | invalidArgument => "InvalidArgument"
  | deadlineExceeded => "DeadlineExceeded"
  | notFound => "NotFound"
  | alreadyExists => "AlreadyExists"
  | permissionDenied => "PermissionDenied"
  | resourceExhausted => "ResourceExhausted"
  | failedPrecondition => "FailedPrecondition"
  | aborted => "Aborted"
  | outOfRange => "OutOfRange"
  | unimplemented => "Unimplemented"
  | internal => "Internal"
  | unavailable => "Unavailable"
  | dataLoss => "DataLoss"
  | unauthenticated => "Unauthenticated"

example : ofInt 5 = notFound ∧ ofInt 16 = unauthenticated ∧ ofInt 17 = unknown := by decide

end Code

structure Status where
  code : Code
  message : String
  deriving Repr, DecidableEq, Inhabited

/-- The code a failure is reported under; of several failures, the first decides. -/
def Failure.code : Failure → Code
  | .protocol _ | .validation _ => .invalidArgument
  | .duplicateChunk .. => .alreadyExists
  | .notFound => .notFound
  | .unauthenticated _ => .unauthenticated
  | .transport _ => .unavailable
  | .many (f :: _) => f.code
  | .many [] | .io _ | .encryption _ | .decryption _ | .persistence _ | .config _ => .internal

def Failure.status (f : Failure) : Status := ⟨f.code, f.message⟩

@[simp] theorem Failure.status_message (f : Failure) : f.status.message = f.message := rfl

/-- What the caller makes of a status. -/
def Status.failure (s : Status) : Failure :=
  match s.code with
  | .notFound => .notFound
  | .unauthenticated => .unauthenticated s.message
  | .invalidArgument => .validation s.message
  | .alreadyExists => .persistence s.message
  | code => .transport (code.name ++ ": " ++ s.message)

/-! ## Several failures in one status -/

/-- The text of a status tells of failures: of a single one in its own words, of several under their
number. -/
structure Status.Lists (s : Status) (fs : List Failure) : Prop where
  alone : ∀ f, fs = [f] → s.message = f.message
  several : 1 < fs.length → s.message =
    toString fs.length ++ " worker(s) failed: " ++ "; ".intercalate (fs.map Failure.message)
  each : ∀ f ∈ fs, ∃ before after, s.message = before ++ f.message ++ after

theorem infix_intercalate {separator text : String} {texts : List String} (h : text ∈ texts) :
    ∃ before after, separator.intercalate texts = before ++ text ++ after := by
  induction texts with
  | nil => cases h
  | cons first rest ih =>
    cases rest with
    | nil =>
      cases List.mem_singleton.1 h
      exact ⟨"", "", by simp⟩
    | cons second rest =>
      rw [String.intercalate_cons_cons]
      rcases List.mem_cons.1 h with rfl | h
      · exact ⟨"", separator ++ separator.intercalate (second :: rest),
          by simp [String.append_assoc]⟩
      · obtain ⟨before, after, heq⟩ := ih h
        exact ⟨first ++ separator ++ before, after, by simp [heq, String.append_assoc]⟩

namespace Failure

variable {fs : List Failure} {f : Failure}

theorem lists_of_collect (h : collect fs = some f) : f.status.Lists fs := by
  match fs, h with
  | [f], rfl =>
    refine ⟨fun g same => ?_, fun two => absurd two (Nat.lt_irrefl 1), fun g hg => ?_⟩
    · cases same
      rfl
    · cases List.mem_singleton.1 hg
      exact ⟨"", "", by simp⟩
  | a :: b :: rest, h =>
    cases h
    refine ⟨fun g same => ?_, fun _ => message_many _, fun g hg => ?_⟩
    · cases same
    · obtain ⟨before, after, heq⟩ := infix_intercalate (List.mem_map_of_mem hg)
      refine ⟨toString (a :: b :: rest).length ++ " worker(s) failed: " ++ before, after, ?_⟩
      rw [status_message, message_many, heq]
      simp only [String.append_assoc]

/-- Several failures go under the code that all of them have. -/
theorem code_of_collect {c : Code} (h : collect fs = some f) (alike : ∀ g ∈ fs, g.code = c) :
    f.status.code = c := by
  match fs, h with
  | [f], rfl => exact alike f List.mem_cons_self
  | a :: b :: rest, rfl => exact alike a List.mem_cons_self

end Failure

end Strongbox
