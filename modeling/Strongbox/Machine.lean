/-!
# Machines

What is at work makes one move after another. Every move lowers a weight, so no row of moves is
endless; which of them are made, and in what order, is up to a schedule.
-/

namespace Strongbox

/-- Something at work. Every move lowers its weight. -/
structure Machine (μ α : Type) where
  step : μ → α → Option α
  weight : α → Nat
  /-- How many workers there are. -/
  crew : α → Nat
  lighter : ∀ {m : μ} {x y : α}, step m x = some y → weight y < weight x

/-- Who is asked to move, and in what order, by the weight and the number of the workers. No two
moves are made at the same weight, so each order of moves is told by some schedule. -/
abbrev Schedule (μ : Type) := (weight crew : Nat) → List μ

namespace Machine

variable {μ α β : Type} (M : Machine μ α) (schedule : Schedule μ)

/-- What comes of the first move that can be made. -/
def next (x : α) : Option α := (schedule (M.weight x) (M.crew x)).findSome? fun m => M.step m x

def runWithin : (n : Nat) → α → α
  | 0, x => x
  | n + 1, x =>
    match M.next schedule x with
    | none => x
    | some y => runWithin n y

def run (x : α) : α := M.runWithin schedule (M.weight x) x

variable {M schedule} {x y : α}

theorem exists_move (h : M.next schedule x = some y) :
    ∃ m ∈ schedule (M.weight x) (M.crew x), M.step m x = some y :=
  List.exists_of_findSome?_eq_some h

theorem run_induction {P : α → Prop} (start : P x)
    (step : ∀ {m y z}, m ∈ schedule (M.weight y) (M.crew y) → P y → M.step m y = some z → P z) :
    P (M.run schedule x) := by
  suffices ∀ n, P (M.runWithin schedule n x) from this _
  intro n
  induction n generalizing x with
  | zero => exact start
  | succ n ih =>
    unfold runWithin
    split
    · exact start
    · rename_i y hnext
      obtain ⟨m, hm, h⟩ := exists_move hnext
      exact ih (step hm start h)

/-- One move for each unit of the weight is enough: a run leaves none of the moves asked for. -/
theorem next_run : M.next schedule (M.run schedule x) = none := by
  suffices ∀ n, M.weight x ≤ n → M.next schedule (M.runWithin schedule n x) = none from
    this _ (Nat.le_refl _)
  intro n
  induction n generalizing x with
  | zero =>
    intro light
    show M.next schedule x = none
    cases hnext : M.next schedule x with
    | none => rfl
    | some y =>
      obtain ⟨m, -, h⟩ := exists_move hnext
      have := M.lighter h
      omega
  | succ n ih =>
    intro light
    unfold runWithin
    split
    · assumption
    · rename_i y hnext
      obtain ⟨m, -, h⟩ := exists_move hnext
      have := M.lighter h
      exact ih (by omega)

theorem step_run {m : μ}
    (asked : m ∈ schedule (M.weight (M.run schedule x)) (M.crew (M.run schedule x))) :
    M.step m (M.run schedule x) = none :=
  List.findSome?_eq_none_iff.1 next_run m asked

/-! ## Two machines side by side -/

/-- The first of several tries that comes to something does so on both sides. -/
theorem rel_findSome? {γ δ : Type} {P : γ → δ → Prop} {f : μ → Option γ} {g : μ → Option δ}
    (h : ∀ m, Option.Rel P (f m) (g m)) (ms : List μ) :
    Option.Rel P (ms.findSome? f) (ms.findSome? g) := by
  induction ms with
  | nil => exact .none
  | cons m rest ih =>
    have here := h m
    rw [List.findSome?_cons, List.findSome?_cons]
    generalize f m = a at here
    generalize g m = b at here
    cases here with
    | none => exact ih
    | some related => exact .some related

/-- Two machines that go together with every move go together to the end of a run. -/
theorem rel_run {N : Machine μ β} {R : α → β → Prop} {z : β}
    (sizes : ∀ {x z}, R x z → M.weight x = N.weight z ∧ M.crew x = N.crew z)
    (step : ∀ {x z} m, R x z → Option.Rel R (M.step m x) (N.step m z)) (h : R x z) :
    R (M.run schedule x) (N.run schedule z) := by
  suffices ∀ n, R (M.runWithin schedule n x) (N.runWithin schedule n z) by
    rw [run, run, (sizes h).1]
    exact this _
  intro n
  induction n generalizing x z with
  | zero => exact h
  | succ n ih =>
    obtain ⟨weight_eq, crew_eq⟩ := sizes h
    have both : Option.Rel R (M.next schedule x) (N.next schedule z) := by
      rw [next, next, weight_eq, crew_eq]
      exact rel_findSome? (step · h) _
    unfold runWithin
    generalize M.next schedule x = a at both
    generalize N.next schedule z = b at both
    cases both with
    | none => exact h
    | some related => exact ih related

end Machine

end Strongbox
