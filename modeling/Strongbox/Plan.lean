import Strongbox.Failure
import Strongbox.Span
import Strongbox.Word

/-!
# Chunk plans

How a file is cut into chunks: all of one size, but the last, which carries the rest. An empty file
has no chunks.
-/

namespace Strongbox

/-- Chunk counts and indices stay below this limit. -/
def chunkLimit : Nat := Word.count32

def defaultChunkSize : Nat := 65536

def chunkCount (size chunkSize : Nat) : Nat := (size + chunkSize - 1) / chunkSize

def chunkOffset (index chunkSize : Nat) : Nat := index * chunkSize

/-- A file size, and the size of the chunks it is cut into. -/
structure Plan where
  size : Nat
  chunkSize : Nat
  chunkSize_pos : 0 < chunkSize
  count_lt : chunkCount size chunkSize < chunkLimit
  deriving Repr, DecidableEq

namespace Plan

inductive Fault where
  | zeroChunkSize
  | tooManyChunks (count : Nat)
  | miscounted (declared size chunkSize needed : Nat)
  | outside (index : Int) (total : Nat)
  | wrongLength (index length expected : Nat)
  deriving Repr, DecidableEq

def Fault.failure : Fault → Failure
  | zeroChunkSize => .protocol "chunk size must be positive"
  | tooManyChunks count => .validation (toString count ++ " chunks exceeds the limit")
  | miscounted declared size chunkSize needed =>
      .validation (toString declared ++ " chunks declared, " ++ toString size ++ " bytes in "
        ++ toString chunkSize ++ "-byte chunks needs " ++ toString needed)
  | outside index total =>
      .validation ("chunk index " ++ toString index ++ " outside 0.." ++ toString total)
  | wrongLength index length expected =>
      .validation ("chunk " ++ toString index ++ " is " ++ toString length ++ " bytes, expected "
        ++ toString expected)

def total (p : Plan) : Nat := chunkCount p.size p.chunkSize

/-- The plan for a file of `size` bytes. -/
def make (size chunkSize : Nat) : Except Fault Plan :=
  if hpos : 0 < chunkSize then
    if hlt : chunkCount size chunkSize < chunkLimit then .ok ⟨size, chunkSize, hpos, hlt⟩
    else .error (.tooManyChunks (chunkCount size chunkSize))
  else .error .zeroChunkSize

/-- The plan a peer announces, which must count its chunks correctly. -/
def declared (size chunkSize count : Nat) : Except Fault Plan := do
  let p ← make size chunkSize
  if p.total = count then return p
  else throw (.miscounted count size chunkSize p.total)

/-- Where the bytes of a chunk lie in the file. -/
def span? (p : Plan) (index : Nat) : Option Span :=
  if index < p.total then
    let start := chunkOffset index p.chunkSize
    some ⟨start, min (start + p.chunkSize) p.size⟩
  else none

/-- Accepts a chunk that is in the plan and has exactly its length there. -/
def check (p : Plan) (index length : Nat) : Except Fault Unit :=
  match p.span? index with
  | none => .error (.outside index p.total)
  | some s => if length = s.length then .ok () else .error (.wrongLength index length s.length)

def isLast (p : Plan) (index : Nat) : Bool := 0 < p.total && index == p.total - 1

def spans (p : Plan) (n : Nat) : List (Nat × Span) :=
  (List.range (min n p.total)).filterMap fun i => (p.span? i).map (i, ·)

theorem make_eq_ok_iff {size chunkSize : Nat} {p : Plan} :
    make size chunkSize = .ok p ↔ p.size = size ∧ p.chunkSize = chunkSize := by
  unfold make
  constructor
  · intro h
    split at h
    · split at h
      · cases h; exact ⟨rfl, rfl⟩
      · cases h
    · cases h
  · rintro ⟨rfl, rfl⟩
    rw [dif_pos p.chunkSize_pos, dif_pos p.count_lt]

theorem total_lt (p : Plan) : p.total < chunkLimit := p.count_lt

theorem span?_isSome_iff (p : Plan) (index : Nat) : (p.span? index).isSome ↔ index < p.total := by
  unfold span?; split <;> simp_all

end Plan

end Strongbox
