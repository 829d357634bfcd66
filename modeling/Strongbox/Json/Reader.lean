import Strongbox.Json
import Strongbox.Json.Magnitude

/-!
# Reading in place

Values read one by one from the front of a text. A reader that fails has still taken what it looked
at, so a text can be read on from where a value went wrong. It depends on the failure how far that
is.
-/

namespace Strongbox.Json

/-- Takes bytes from the front of a text. One that fails leaves what it did not take. -/
abbrev Reader := OptionT (StateM Bytes)

namespace Reader

variable {α : Type}

/-! ## Bytes -/

def peek : Reader (Option UInt8) := do return (← get).head?

def next : Reader UInt8 := do
  let some b ← peek | failure
  modify List.tail
  return b

/-- Takes what a splitting gives, or nothing. -/
def split (cut : Bytes → Bytes × Bytes) : Reader Bytes := do
  let (taken, rest) := cut (← get)
  set rest
  return taken

/-- Takes the first part that a partial splitting gives; where there is none, fails and takes
nothing. -/
def split? (cut : Bytes → Option (Bytes × Bytes)) : Reader Bytes := do
  let some (taken, rest) := cut (← get) | failure
  set rest
  return taken

/-- What another reader gives, if it does not fail. What it took is taken either way. -/
def attempt (read : Reader α) : Reader (Option α) :=
  OptionT.mk (do return some (← read.run))

def oneOf (bytes : List UInt8) : Reader Bytes := split (sign bytes)

def blanks : Reader Unit := modify (·.dropWhile isSpace)

/-- Takes blanks and a mark; where another byte comes next, fails and leaves it. -/
def mark (b : UInt8) : Reader Unit := do
  blanks
  guard ((← peek) = some b)
  modify List.tail

/-- Takes a word; the first byte that differs is taken too. -/
def word : Bytes → Reader Unit
  | [] => pure ()
  | b :: rest => do
    guard ((← next) = b)
    word rest

/-- Takes blanks and the end of a list. A comma in its place is taken, with the blanks after it. -/
def endList : Reader Unit := do
  blanks
  match ← peek with
  | some 0x5d => modify List.tail
  | some 0x2c => modify List.tail; blanks; failure
  | _ => failure

def endObject : Reader Unit := mark 0x7d

/-! ## Texts -/

/-- The inside of a text whose opening mark has been taken, without its escapes, and what follows.
Reading ends after the first byte that will not do, after an escape that stands for nothing, and at
the end where an escape is cut short. -/
def plainBody : Bytes → Option Bytes × Bytes
  | 0x22 :: rest => (some [], rest)
  | 0x5c :: 0x75 :: a :: b :: c :: d :: rest =>
    let u := unit a b c d
    if !([a, b, c, d].all isHexDigit) || isTrailing u then (none, rest)
    else if isLeading u then
      match rest with
      | 0x5c :: 0x75 :: a' :: b' :: c' :: d' :: rest =>
        let v := unit a' b' c' d'
        if [a', b', c', d'].all isHexDigit && isTrailing v then
          let (body, after) := plainBody rest
          (body.map (String.utf8EncodeChar
            (Char.ofNat (0x10000 + (u - 0xd800) * 0x400 + (v - 0xdc00))) ++ ·), after)
        else (none, rest)
      | 0x5c :: 0x75 :: _ => (none, [])
      | 0x5c :: rest => (none, rest.tail)
      | rest => (none, rest.tail)
    else
      let (body, after) := plainBody rest
      (body.map (String.utf8EncodeChar (Char.ofNat u) ++ ·), after)
  | 0x5c :: 0x75 :: _ => (none, [])
  | 0x5c :: e :: rest =>
    if isEscape e then
      let (body, after) := plainBody rest
      (body.map (escaped e :: ·), after)
    else (none, rest)
  | c :: rest =>
    if c < 0x20 || c == 0x5c then (none, rest)
    else
      let (body, after) := plainBody rest
      (body.map (c :: ·), after)
  | [] => (none, [])

/-- Takes a text whose opening mark has been taken. Its bytes must encode characters; those that do
not are found at its end. -/
def quoted : Reader String := do
  let (body, rest) := plainBody (← get)
  set rest
  let some plain := body.bind Bytes.toString? | failure
  return plain

/-! ## Numbers -/

def digits : Reader Bytes := split digitRun

/-- Takes the exponent after the letter of a power. A digit that takes a positive exponent out of
its range is the last one taken, unless the number is zero. -/
def exponent (significand : Nat) : Reader Int := do
  let sign ← oneOf [0x2b, 0x2d]
  let first ← next
  guard (isDigit first)
  let (run, rest) := digitRun (← get)
  let (value, count) := appendDigits (Word.maxInt32 + 1) (digitsValue [first]) run
  if count < run.length ∧ sign ≠ [0x2d] ∧ significand ≠ 0 then
    modify (·.drop (count + 1))
    failure
  set rest
  return if sign = [0x2d] then -(value : Int) else value

/-- Takes a number that can be kept. Digits that do not fit a word of sixty-four bits count by their
number only. -/
def numeral : Reader Unit := do
  let _ ← oneOf [0x2d]
  let first ← next
  guard (isDigit first)
  let run ← if first = 0x30 then pure [] else digits
  guard ((← peek).all fun b => !isDigit b)
  let (whole, count) := appendDigits Word.count64 (digitsValue [first]) run
  let point ← oneOf [0x2e]
  let places ← if point = [] then pure [] else digits
  guard (point = [] ∨ places ≠ [])
  let (significand, placeCount) := appendDigits Word.count64 whole places
  let letter ← oneOf [0x65, 0x45]
  let power ← if letter = [] then pure 0 else exponent significand
  let surplus := run.length - count
  guard (Magnitude.isFinite ⟨significand, surplus - placeCount + power⟩)

/-! ## Values -/

/-- A value without parts. -/
inductive Scalar where
  | null
  | bool
  | number
  | text
  deriving Repr, DecidableEq

/-- Takes a value without parts; lists and objects are left. -/
def scalar : Reader Scalar := do
  match ← peek with
  | some 0x6e => word [0x6e, 0x75, 0x6c, 0x6c]; return .null
  | some 0x74 => word [0x74, 0x72, 0x75, 0x65]; return .bool
  | some 0x66 => word [0x66, 0x61, 0x6c, 0x73, 0x65]; return .bool
  | some 0x22 => mark 0x22; let _ ← quoted; return .text
  | some b =>
    guard (b = 0x2d ∨ isDigit b)
    numeral
    return .number
  | none => failure

/-- The items up to the end of a list, which is left. No list has more items than bytes. -/
def items (read : Reader α) : (fuel : Nat) → (first : Bool) → Reader (List α)
  | 0, _ => failure
  | fuel + 1, first => do
    blanks
    if (← peek) = some 0x5d then return []
    unless first do mark 0x2c
    let item ← read
    return item :: (← items read fuel false)

/-- The members up to the end of an object, which is left. No object has more members than
bytes. -/
def members (name : Reader String) (read : String → Reader α) :
    (fuel : Nat) → (first : Bool) → Reader (List (String × α))
  | 0, _ => failure
  | fuel + 1, first => do
    blanks
    if (← peek) = some 0x7d then return []
    unless first do mark 0x2c
    mark 0x22
    let key ← name
    mark 0x3a
    let item ← read key
    return (key, item) :: (← members name read fuel false)

/-- What kind of value there is: texts are told from other values, and so are lists of them. -/
inductive Shape where
  | null
  | text
  | texts
  | other
  deriving Repr, DecidableEq

def Scalar.shape : Scalar → Shape
  | null => .null
  | text => .text
  | bool => .other
  | number => .other

def Shape.ofItems (items : List Shape) : Shape :=
  if items.all (· = .text) then .texts else .other

/-- Takes a value of which every part can be kept and which has fewer than `levels` levels of lists
and objects. Where a part will not do, the lists and objects around it are still ended if their ends
come next. -/
def shape : (levels : Nat) → Reader Shape
  | 0 => failure
  | levels + 1 => do
    blanks
    match ← peek with
    | some 0x5b =>
      guard (0 < levels)
      mark 0x5b
      let parts ← attempt (do items (shape levels) ((← get).length + 1) true)
      endList
      let some parts := parts | failure
      return Shape.ofItems parts
    | some 0x7b =>
      guard (0 < levels)
      mark 0x7b
      let parts ← attempt (do members quoted (fun _ => shape levels) ((← get).length + 1) true)
      endObject
      guard parts.isSome
      return .other
    | _ => return (← scalar).shape

/-- Takes a value without keeping it: its texts may stand for nothing and its numbers be of any
size. No value has more levels than bytes. -/
def skip : (fuel : Nat) → Reader Unit
  | 0 => failure
  | fuel + 1 => do
    blanks
    match ← peek with
    | some 0x5b =>
      mark 0x5b
      let _ ← items (skip fuel) ((← get).length + 1) true
      endList
    | some 0x7b =>
      mark 0x7b
      let _ ← members (do let _ ← split? textBody; return "") (fun _ => skip fuel)
        ((← get).length + 1) true
      endObject
    | some 0x6e => word [0x6e, 0x75, 0x6c, 0x6c]
    | some 0x74 => word [0x74, 0x72, 0x75, 0x65]
    | some 0x66 => word [0x66, 0x61, 0x6c, 0x73, 0x65]
    | some 0x22 => mark 0x22; let _ ← split? textBody
    | _ => let _ ← split? number?

/-- Whether a text is what a reader takes, with blanks around it. -/
def takesAll (read : Reader α) (text : Bytes) : Option α :=
  ((do let a ← read; blanks; guard ((← get) = []); return a : Reader α).run.run text).1

end Reader

/-- The levels of lists and objects that a value may have to be kept, and one more. -/
def maxLevels : Nat := 128

/-- Whether a text is one value, every part of which can be kept. -/
def isSound (text : Bytes) : Bool := (Reader.takesAll (Reader.shape maxLevels) text).isSome

end Strongbox.Json
