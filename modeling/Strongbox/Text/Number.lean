/-!
# Numbers in text

Decimal numbers in a given range, and what is wrong with a text that is none.
-/

namespace Strongbox.Number

inductive Fault where
  | empty
  | badDigit
  | tooLarge
  | tooSmall
  deriving Repr, DecidableEq

def Fault.text : Fault → String
  | empty => "cannot parse integer from empty string"
  | badDigit => "invalid digit found in string"
  | tooLarge => "number too large to fit in target type"
  | tooSmall => "number too small to fit in target type"

def digitValue? (c : Char) : Option Nat :=
  if '0' ≤ c ∧ c ≤ '9' then some (c.toNat - '0'.toNat) else none

/-- The number written by `n` and more digits, none of whose beginnings exceeds the bound. -/
def magnitude (bound : Nat) (excess : Fault) (n : Nat) : List Char → Except Fault Nat
  | [] => .ok n
  | c :: rest =>
    match digitValue? c with
    | none => .error .badDigit
    | some d =>
      if bound < 10 * n + d then .error excess else magnitude bound excess (10 * n + d) rest

/-- A number up to `bound`; a plus sign may stand before it. -/
def natural (bound : Nat) (s : List Char) : Except Fault Nat :=
  match s with
  | [] => .error .empty
  | ['+'] => .error .badDigit
  | '+' :: rest => magnitude bound .tooLarge 0 rest
  | _ => magnitude bound .tooLarge 0 s

/-- A number from `-(bound + 1)` to `bound`; a sign may stand before it. -/
def integer (bound : Nat) (s : List Char) : Except Fault Int :=
  match s with
  | ['-'] => .error .badDigit
  | '-' :: rest => (magnitude (bound + 1) .tooSmall 0 rest).map fun n => -(n : Int)
  | _ => (natural bound s).map Int.ofNat

end Strongbox.Number
