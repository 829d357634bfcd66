import Strongbox.Wire.Token

/-!
# Schemas

How the fields of a message type are numbered, written and read.
-/

namespace Strongbox.Wire

/-- How values of one type stand in a field: the value a missing field has, the items written for a
value, and the value after one more item, where `depth` messages may still be nested. -/
structure Kind (α : Type) where
  blank : α
  write : α → List Item
  merge : (depth : Nat) → α → Item → Option α

/-- One field of a message type. -/
structure Entry (M : Type) where
  field : Nat
  write : M → List Item
  merge : (depth : Nat) → M → Item → Option M

/-- The field that holds a part of the message. -/
def Kind.entry {M α : Type} (k : Kind α) (field : Nat) (get : M → α) (set : M → α → M) :
    Entry M where
  field := field
  write m := k.write (get m)
  merge depth m item := (k.merge depth (get m) item).map (set m)

/-- A message type: its blank message, and its fields in the order in which they are written. -/
structure Schema (M : Type) where
  blank : M
  entries : List (Entry M)

namespace Schema

variable {M : Type}

def tokens (s : Schema M) (m : M) : List Token :=
  s.entries.flatMap fun e => (e.write m).map (Token.mk e.field)

def encode (s : Schema M) (m : M) : Bytes := (s.tokens m).flatMap Token.write

/-- A message after one more token; fields that the type does not have are passed over. -/
def mergeToken (s : Schema M) (depth : Nat) (m : M) (t : Token) : Option M :=
  match s.entries.find? (·.field == t.field) with
  | some e => e.merge depth m t.item
  | none => some m

def mergeBytes (s : Schema M) (depth : Nat) (m : M) (b : Bytes) : Option M := do
  let tokens ← Token.outside depth [] (← Token.readAll b)
  tokens.foldlM (s.mergeToken depth) m

/-- How deeply messages and groups may be nested. -/
def maxDepth : Nat := 100

def decode (s : Schema M) (b : Bytes) : Option M := s.mergeBytes maxDepth s.blank b

/-- A message embedded in another one, after one more occurrence. -/
def mergeEmbedded (s : Schema M) (depth : Nat) (m : M) : Item → Option M
  | .block b => if depth = 0 then none else s.mergeBytes (depth - 1) m b
  | _ => none

def repeated (s : Schema M) : Kind (List M) where
  blank := []
  write ms := ms.map fun m => .block (s.encode m)
  merge depth ms item := (s.mergeEmbedded depth s.blank item).map fun m => ms ++ [m]

/-- The field of one of several alternatives: another occurrence of the same one is merged into it,
and it replaces any other. -/
def choice {C : Type} (s : Schema M) (field : Nat) (get? : C → Option M) (make : M → C) :
    Entry C where
  field := field
  write c := ((get? c).map fun m => Item.block (s.encode m)).toList
  merge depth c item := (s.mergeEmbedded depth ((get? c).getD s.blank) item).map make

end Schema

namespace Kind

/-- A value other than the blank one is written as one item; the last occurrence counts. -/
def scalar {α : Type} [DecidableEq α] (blank : α) (write : α → Item) (read : Item → Option α) :
    Kind α where
  blank := blank
  write a := if a = blank then [] else [write a]
  merge _ _ item := read item

def number? : Item → Option UInt64
  | .number value => some value
  | _ => none

def block? : Item → Option Bytes
  | .block bytes => some bytes
  | _ => none

def int64 : Kind Int64 :=
  scalar 0 (fun n => .number n.toUInt64) fun i => (number? i).map (·.toInt64)

/-- Integers of thirty-two bits, written with their sign carried on to sixty-four; of a larger
number the low bits are read. -/
def int32 : Kind Int32 :=
  scalar 0 (fun n => .number n.toInt64.toUInt64) fun i => (number? i).map (·.toInt64.toInt32)

/-- Truth values; every number but zero is true. -/
def bool : Kind Bool :=
  scalar false (fun b => .number (if b then 1 else 0)) fun i => (number? i).map (· != 0)

def text : Kind String :=
  scalar "" (fun s => .block (Bytes.ofString s)) fun i => (block? i).bind Bytes.toString?

def bytes : Kind Bytes := scalar [] .block block?

end Kind

end Strongbox.Wire
