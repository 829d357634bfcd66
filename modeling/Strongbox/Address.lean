import Strongbox.Failure
import Strongbox.Text.Split
import Strongbox.Word

/-!
# Addresses

Where a service listens: a host of four or sixteen bytes, and a port. The written form of a long
host leaves out one run of zero groups.
-/

namespace Strongbox

/-- A host: four bytes, or eight groups of two bytes with a scope. -/
inductive Host where
  | short (octets : List Nat)
  | long (groups : List Nat) (scope : Nat)
  deriving Repr, DecidableEq, Inhabited

/-- A host with a port. -/
structure Address where
  host : Host
  port : Nat
  deriving Repr, DecidableEq, Inhabited

namespace Address

/-! ## Reading -/

/-! A reader takes a value off the start of a text and gives what follows. -/

def digitValue? (base : Nat) (c : Char) : Option Nat :=
  let value? :=
    if '0' ≤ c ∧ c ≤ '9' then some (c.toNat - '0'.toNat)
    else if 'a' ≤ c ∧ c ≤ 'f' then some (c.toNat - 'a'.toNat + 10)
    else if 'A' ≤ c ∧ c ≤ 'F' then some (c.toNat - 'A'.toNat + 10)
    else none
  value?.filter (· < base)

/-- What numbers of one kind look like: their base and limit, the most digits they may have, and
whether they may begin with a spare zero. -/
structure Numerals where
  base : Nat
  limit : Nat
  maxDigits : Option Nat
  spareZeros : Bool

/-- The number that starts a text; it takes every digit there is. -/
def number? (k : Numerals) (s : List Char) : Option (Nat × List Char) :=
  let isDigit c := (digitValue? k.base c).isSome
  let digits := (s.takeWhile isDigit).filterMap (digitValue? k.base)
  let value := digits.foldl (fun n d => k.base * n + d) 0
  if digits.isEmpty || k.maxDigits.any (· < digits.length) then none
  else if !k.spareZeros && digits.head? = some 0 && 1 < digits.length then none
  else if value < k.limit then some (value, s.dropWhile isDigit)
  else none

/-- One byte of a short host. -/
def octetNumerals : Numerals := ⟨10, Word.count8, some 3, false⟩

/-- One group of a long host. -/
def groupNumerals : Numerals := ⟨16, Word.count16, some 4, true⟩

def portNumerals : Numerals := ⟨10, Word.count16, none, true⟩

def scopeNumerals : Numerals := ⟨10, Word.count32, none, true⟩

/-- What follows a mark, if the text starts with it. -/
def mark? (c : Char) : List Char → Option (List Char)
  | x :: rest => if x = c then some rest else none
  | [] => none

/-- What follows the mark that stands between items; before the first item there is none. -/
def between? (c : Char) (first : Bool) (s : List Char) : Option (List Char) :=
  if first then some s else mark? c s

/-- `n` numbers with points between. -/
def octets? (first : Bool) : (n : Nat) → List Char → Option (List Nat × List Char)
  | 0, s => some ([], s)
  | n + 1, s => do
    let (octet, rest) ← number? octetNumerals (← between? '.' first s)
    let (octets, rest) ← octets? false n rest
    return (octet :: octets, rest)

/-- Up to `room` groups with colons between, as many as there are; a short host may stand for the
last two. The flag tells whether one does. -/
def groups (first : Bool) : (room : Nat) → List Char → List Nat × Bool × List Char
  | 0, s => ([], false, s)
  | room + 1, s =>
    let short := if 0 < room then (between? ':' first s).bind (octets? true 4) else none
    match short with
    | some ([a, b, c, d], rest) => ([256 * a + b, 256 * c + d], true, rest)
    | _ =>
      match (between? ':' first s).bind (number? groupNumerals) with
      | none => ([], false, s)
      | some (group, rest) =>
        let (others, isShort, rest) := groups false room rest
        (group :: others, isShort, rest)

/-- The eight groups that start a text. Two colons stand for one zero group or more. -/
def groups? (s : List Char) : Option (List Nat × List Char) := do
  let (front, isShort, rest) := groups true 8 s
  if front.length = 8 then return (front, rest)
  guard (!isShort)
  let rest ← mark? ':' (← mark? ':' rest)
  let (back, _, rest) := groups true (7 - front.length) rest
  return (front ++ List.replicate (8 - front.length - back.length) 0 ++ back, rest)

def port? (s : List Char) : Option (Nat × List Char) := (mark? ':' s).bind (number? portNumerals)

/-- A short host with its port. -/
def short? (s : List Char) : Option (Address × List Char) := do
  let (octets, rest) ← octets? true 4 s
  let (port, rest) ← port? rest
  return (⟨.short octets, port⟩, rest)

/-- The scope after its mark; none is zero. -/
def scope (s : List Char) : Nat × List Char :=
  ((mark? '%' s).bind (number? scopeNumerals)).getD (0, s)

/-- A long host in brackets, with its port. -/
def long? (s : List Char) : Option (Address × List Char) := do
  let (groups, rest) ← groups? (← mark? '[' s)
  let (scope, rest) := scope rest
  let (port, rest) ← port? (← mark? ']' rest)
  return (⟨.long groups scope, port⟩, rest)

def parse? (s : String) : Option Address :=
  match (short? s.toList).or (long? s.toList) with
  | some (address, []) => some address
  | _ => none

/-! ## Writing -/

def octetsText (octets : List Nat) : String := ".".intercalate (octets.map toString)

def groupsText (groups : List Nat) : String :=
  ":".intercalate (groups.map fun g => String.ofList (Nat.toDigits 16 g))

def leadingZeros (groups : List Nat) : Nat := (groups.takeWhile (· == 0)).length

/-- Where the longest run of zero groups lies and how long it is, the first one of several. -/
def longestZeros : List Nat → Nat × Nat
  | [] => (0, 0)
  | g :: rest =>
    let here := leadingZeros (g :: rest)
    let (start, length) := longestZeros rest
    if length ≤ here then (0, here) else (start + 1, length)

/-- The written form of eight groups. A short host within a long one keeps its own form. -/
def longText (groups : List Nat) : String :=
  match groups with
  | [0, 0, 0, 0, 0, 0xffff, x, y] =>
    "::ffff:" ++ octetsText [x / 256, x % 256, y / 256, y % 256]
  | _ =>
    let (start, length) := longestZeros groups
    if 1 < length then
      groupsText (groups.take start) ++ "::" ++ groupsText (groups.drop (start + length))
    else groupsText groups

def hostText : Host → String
  | .short octets => octetsText octets
  | .long groups scope =>
    "[" ++ longText groups ++ (if scope = 0 then "" else "%" ++ toString scope) ++ "]"

def toText (a : Address) : String := hostText a.host ++ ":" ++ toString a.port

example : (parse? "[1:0:0:2:0:0:0:3]:80").map toText = some "[1:0:0:2::3]:80" := by decide +kernel
example : (parse? "[::ffff:1.2.3.4%0]:080").map toText = some "[::ffff:1.2.3.4]:80" := by
  decide +kernel

end Address

end Strongbox
