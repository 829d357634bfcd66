import Strongbox.Json.Lexeme
import Strongbox.Word

/-!
# Structured text

JSON documents. A document is read whole before anything in it is converted; a conversion fails on
its own.
-/

namespace Strongbox

/-- A document. Texts keep their escapes and numbers their digits. -/
inductive Json where
  | null
  | bool (value : Bool)
  | number (literal : Bytes)
  | text (raw : Bytes)
  | list (items : List Json)
  | object (members : List (Bytes × Json))
  deriving Repr, Inhabited

namespace Json

mutual

/-- The value that begins a row of words, and the words after it. -/
def value? : (fuel : Nat) → List Lexeme → Option (Json × List Lexeme)
  | 0, _ => none
  | fuel + 1, words =>
    match words with
    | .null :: rest => some (null, rest)
    | .true :: rest => some (bool true, rest)
    | .false :: rest => some (bool false, rest)
    | .number literal :: rest => some (number literal, rest)
    | .text raw :: rest => some (text raw, rest)
    | .beginList :: .endList :: rest => some (list [], rest)
    | .beginList :: rest => (items? fuel rest).map fun (items, after) => (list items, after)
    | .beginObject :: .endObject :: rest => some (object [], rest)
    | .beginObject :: rest => (memberRow? fuel rest).map fun (ms, after) => (object ms, after)
    | _ => none

/-- The items up to the end of a list that is not empty. -/
def items? : (fuel : Nat) → List Lexeme → Option (List Json × List Lexeme)
  | 0, _ => none
  | fuel + 1, words =>
    match value? fuel words with
    | some (item, .comma :: rest) =>
      (items? fuel rest).map fun (items, after) => (item :: items, after)
    | some (item, .endList :: rest) => some ([item], rest)
    | _ => none

def memberRow? : (fuel : Nat) → List Lexeme → Option (List (Bytes × Json) × List Lexeme)
  | 0, _ => none
  | fuel + 1, words =>
    match words with
    | .text name :: .colon :: rest =>
      match value? fuel rest with
      | some (item, .comma :: rest) =>
        (memberRow? fuel rest).map fun (ms, after) => ((name, item) :: ms, after)
      | some (item, .endObject :: rest) => some ([(name, item)], rest)
      | _ => none
    | _ => none

end

/-- The document that a text writes. No value takes more than two steps a word. -/
def parse? (b : Bytes) : Option Json := do
  let words ← lexemes? b
  match value? (2 * words.length + 1) words with
  | some (document, []) => some document
  | _ => none

/-! ## Texts -/

/-- The value of a hexadecimal digit; zero for other bytes. -/
def hexValue (b : UInt8) : Nat :=
  if isDigit b then b.toNat - 0x30 else if 0x61 ≤ b then b.toNat - 0x57 else b.toNat - 0x37

/-- The number written by four hexadecimal digits. -/
def unit (a b c d : UInt8) : Nat :=
  ((hexValue a * 16 + hexValue b) * 16 + hexValue c) * 16 + hexValue d

/-- Numbers that only make sense as the first of a pair. -/
def isLeading (u : Nat) : Bool := 0xd800 ≤ u && u < 0xdc00

def isTrailing (u : Nat) : Bool := 0xdc00 ≤ u && u < 0xe000

/-- The byte that a backslash with a letter stands for. -/
def escaped (e : UInt8) : UInt8 :=
  if e = 0x62 then 0x08
  else if e = 0x66 then 0x0c
  else if e = 0x6e then 0x0a
  else if e = 0x72 then 0x0d
  else if e = 0x74 then 0x09
  else e

/-- The bytes of a text without its escapes. Characters past the first plane are written as pairs of
numbers; half a pair stands for nothing. -/
def unescape : Bytes → Option Bytes
  | 0x5c :: 0x75 :: a :: b :: c :: d :: rest =>
    let u := unit a b c d
    if isTrailing u then none
    else if isLeading u then
      match rest with
      | 0x5c :: 0x75 :: a' :: b' :: c' :: d' :: rest =>
        let v := unit a' b' c' d'
        if isTrailing v then
          (unescape rest).map
            (String.utf8EncodeChar
              (Char.ofNat (0x10000 + (u - 0xd800) * 0x400 + (v - 0xdc00))) ++ ·)
        else none
      | _ => none
    else (unescape rest).map (String.utf8EncodeChar (Char.ofNat u) ++ ·)
  | 0x5c :: e :: rest => (unescape rest).map (escaped e :: ·)
  | c :: rest => (unescape rest).map (c :: ·)
  | [] => some []

theorem unescape_of_not_mem {raw : Bytes} (h : 0x5c ∉ raw) : unescape raw = some raw := by
  induction raw with
  | nil => rfl
  | cons c raw ih =>
    obtain ⟨hc, hraw⟩ := List.ne_and_not_mem_of_not_mem_cons h
    rw [unescape.eq_4 _ _ (fun _ _ _ _ _ he => absurd he.symm hc) (fun _ _ he => absurd he.symm hc),
      ih hraw]
    rfl

def plain? (raw : Bytes) : Option String := (unescape raw).bind Bytes.toString?

def text? : Json → Option String
  | text raw => plain? raw
  | _ => none

def texts? : Json → Option (List String)
  | list items => items.mapM text?
  | _ => none

/-! ## Integers -/

def digitsValue (digits : Bytes) : Nat :=
  digits.foldl (fun n b => 10 * n + (b.toNat - 0x30)) 0

/-- The value of an integer without sign, point or power. -/
def natural? : Json → Option Nat
  | number literal => if literal.all isDigit then some (digitsValue literal) else none
  | _ => none

def word? (j : Json) : Option Nat := j.natural?.filter (· < Word.count64)

/-- The value of an integer of sixty-four bits; a negative zero is none. -/
def integer? : Json → Option Int
  | number (0x2d :: digits) =>
    if digits.all isDigit ∧ 0 < digitsValue digits ∧ digitsValue digits ≤ Word.maxInt64 + 1 then
      some (-(digitsValue digits))
    else none
  | j => (j.natural?.filter (· ≤ Word.maxInt64)).map Int.ofNat

/-! ## Members -/

/-- The members of an object, their names without escapes. -/
def members? : Json → Option (List (String × Json))
  | object ms => ms.mapM fun (name, item) => (plain? name).map (·, item)
  | _ => none

/-- The member of a name, if there is one; a name must not repeat. -/
def member? {α : Type} (name : String) (members : List (String × α)) : Option (Option α) :=
  match members.filter (·.1 == name) with
  | [] => some none
  | [(_, item)] => some (some item)
  | _ => none

end Json

end Strongbox
