/-!
# Spans

A stretch of consecutive numbers, its end excluded: bytes of a file, or chunk indices.
-/

namespace Strongbox

/-- The numbers from `start` up to, not including, `stop`. -/
structure Span where
  start : Nat
  stop : Nat
  deriving Repr, DecidableEq, Inhabited

namespace Span

def length (s : Span) : Nat := s.stop - s.start

def isEmpty (s : Span) : Bool := s.stop ≤ s.start

instance : Membership Nat Span := ⟨fun s n => s.start ≤ n ∧ n < s.stop⟩

theorem mem_def {s : Span} {n : Nat} : n ∈ s ↔ s.start ≤ n ∧ n < s.stop := Iff.rfl

instance (n : Nat) (s : Span) : Decidable (n ∈ s) := decidable_of_iff _ mem_def.symm

def toText (s : Span) : String := toString s.start ++ ".." ++ toString s.stop

theorem isEmpty_iff {s : Span} : s.isEmpty = true ↔ ∀ n, n ∉ s := by
  simp only [isEmpty, decide_eq_true_eq, mem_def]
  constructor
  · omega
  · intro h
    have := h s.start
    omega

end Span

end Strongbox
