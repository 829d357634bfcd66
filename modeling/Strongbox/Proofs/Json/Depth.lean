import Mathlib.Data.List.Basic
import Strongbox.Json

/-!
# Where values end

A value can be told from the words after it by counting: each list and object that begins has to end
first. Counting is all that a reader which lost its way still does right, so the place where it
stands is described by counts, for values and for the insides of lists and objects alike.
-/

namespace Strongbox.Json

variable {words rest : List Lexeme} {fuel n : Nat}

/-! ## Counting -/

/-- The words after the ends of `n` lists and objects that have begun. -/
def leave : (n : Nat) → List Lexeme → Option (List Lexeme)
  | 0, words => some words
  | _ + 1, [] => none
  | n + 1, .beginList :: rest => leave (n + 2) rest
  | n + 1, .beginObject :: rest => leave (n + 2) rest
  | n + 1, .endList :: rest => leave n rest
  | n + 1, .endObject :: rest => leave n rest
  | n + 1, _ :: rest => leave (n + 1) rest

/-- The words after the value that comes next and the ends of `n` lists and objects around it. Only
outside of all of them it has to be a value. -/
def pass : (n : Nat) → List Lexeme → Option (List Lexeme)
  | n + 1, words => leave (n + 1) words
  | 0, .beginList :: rest => leave 1 rest
  | 0, .beginObject :: rest => leave 1 rest
  | 0, .number _ :: rest => some rest
  | 0, .text _ :: rest => some rest
  | 0, .true :: rest => some rest
  | 0, .false :: rest => some rest
  | 0, .null :: rest => some rest
  | 0, _ => none

@[simp]
theorem leave_zero (words : List Lexeme) : leave 0 words = some words := by
  cases words <;> rfl

theorem leave_add (h : leave n words = some rest) (m : Nat) :
    leave (m + n) words = leave m rest := by
  fun_induction leave n words with
  | case1 => cases h; rfl
  | case2 => cases h
  | case7 n w tail h₁ h₂ h₃ h₄ ih =>
    rw [← ih h]
    cases w <;> simp_all [leave, ← Nat.add_assoc]
  | _ => rename_i ih; rw [← ih h]; rfl

section Pass

variable {raw literal : Bytes}

/-- A word that is a value by itself is passed over alone. -/
theorem pass_of_word {word : Lexeme} (outside : pass 0 (word :: rest) = some rest)
    (inside : ∀ m, leave (m + 1) (word :: rest) = leave (m + 1) rest) :
    pass n (word :: rest) = leave n rest := by
  cases n with
  | zero => rw [outside, leave_zero]
  | succ m => exact inside m

@[simp]
theorem pass_beginList : pass n (.beginList :: rest) = leave (n + 1) rest := by
  cases n <;> rfl

@[simp]
theorem pass_beginObject : pass n (.beginObject :: rest) = leave (n + 1) rest := by
  cases n <;> rfl

@[simp]
theorem pass_text : pass n (.text raw :: rest) = leave n rest :=
  pass_of_word rfl fun _ => rfl

@[simp]
theorem pass_number : pass n (.number literal :: rest) = leave n rest :=
  pass_of_word rfl fun _ => rfl

@[simp]
theorem pass_true : pass n (.true :: rest) = leave n rest :=
  pass_of_word rfl fun _ => rfl

@[simp]
theorem pass_false : pass n (.false :: rest) = leave n rest :=
  pass_of_word rfl fun _ => rfl

@[simp]
theorem pass_null : pass n (.null :: rest) = leave n rest :=
  pass_of_word rfl fun _ => rfl

end Pass

/-! ## Where values end -/

/-- The items up to the end of a list are an item and, after a comma, the items that follow. -/
theorem of_items? {items : List Json} (h : items? (fuel + 1) words = some (items, rest)) :
    ∃ item next tail, items = item :: tail ∧ value? fuel words = some (item, next) ∧
      ((∃ after, next = .comma :: after ∧ items? fuel after = some (tail, rest)) ∨
        tail = [] ∧ next = .endList :: rest) := by
  unfold items? at h
  split at h
  · next item after hv =>
    obtain ⟨⟨tail, left⟩, hi, he⟩ := Option.map_eq_some_iff.1 h
    cases he
    exact ⟨item, _, tail, rfl, hv, .inl ⟨after, rfl, hi⟩⟩
  · next item after hv =>
    cases h
    exact ⟨item, _, [], rfl, hv, .inr ⟨rfl, rfl⟩⟩
  · cases h

/-- The members up to the end of an object are a member and, after a comma, those that follow. -/
theorem of_memberRow? {members : List (Bytes × Json)}
    (h : memberRow? (fuel + 1) words = some (members, rest)) :
    ∃ raw item row next tail, members = (raw, item) :: tail ∧ words = .text raw :: .colon :: row ∧
      value? fuel row = some (item, next) ∧
      ((∃ after, next = .comma :: after ∧ memberRow? fuel after = some (tail, rest)) ∨
        tail = [] ∧ next = .endObject :: rest) := by
  unfold memberRow? at h
  split at h
  · next raw row =>
    split at h
    · next item after hv =>
      obtain ⟨⟨tail, left⟩, hm, he⟩ := Option.map_eq_some_iff.1 h
      cases he
      exact ⟨raw, item, row, _, tail, rfl, rfl, hv, .inl ⟨after, rfl, hm⟩⟩
    · next item after hv =>
      cases h
      exact ⟨raw, item, row, _, [], rfl, rfl, hv, .inr ⟨rfl, rfl⟩⟩
    · cases h
  · cases h

/-- Inside of a list or an object, what is left to read does not change over a value. -/
theorem leave_of_pass (h : pass 0 words = some rest) (n : Nat) :
    leave (n + 1) words = leave (n + 1) rest := by
  unfold pass at h
  split at h
  case h_1 | h_9 => simp_all
  case h_2 | h_3 => exact leave_add h (n + 1)
  all_goals cases h; rfl

/-- Values, the items of lists and the members of objects end where the counts say. -/
theorem reads_to_end (fuel : Nat) :
    (∀ words document rest, value? fuel words = some (document, rest) →
      pass 0 words = some rest) ∧
    (∀ words items rest, items? fuel words = some (items, rest) →
      leave 1 words = some rest) ∧
    ∀ words members rest, memberRow? fuel words = some (members, rest) →
      leave 1 words = some rest := by
  induction fuel with
  | zero => exact ⟨nofun, nofun, nofun⟩
  | succ fuel ih =>
    obtain ⟨ihv, ihi, ihm⟩ := ih
    refine ⟨fun words document rest h => ?_, fun words items rest h => ?_,
      fun words members rest h => ?_⟩
    · unfold value? at h
      split at h
      case h_7 =>
        obtain ⟨⟨items, after⟩, hi, he⟩ := Option.map_eq_some_iff.1 h
        cases he
        exact ihi _ _ _ hi
      case h_9 =>
        obtain ⟨⟨ms, after⟩, hm, he⟩ := Option.map_eq_some_iff.1 h
        cases he
        exact ihm _ _ _ hm
      case h_10 => cases h
      all_goals
        cases h
        simp [pass, leave]
    · obtain ⟨item, next, tail, -, hv, ⟨after, rfl, hi⟩ | ⟨-, rfl⟩⟩ := of_items? h
      · rw [leave_of_pass (ihv _ _ _ hv)]
        simpa [leave] using ihi _ _ _ hi
      · rw [leave_of_pass (ihv _ _ _ hv), leave, leave_zero]
    · obtain ⟨raw, item, row, next, tail, -, rfl, hv, more⟩ := of_memberRow? h
      have unnamed : leave 1 (.text raw :: .colon :: row) = leave 1 row := by simp [leave]
      rw [unnamed, leave_of_pass (ihv _ _ _ hv)]
      obtain ⟨after, rfl, hm⟩ | ⟨-, rfl⟩ := more
      · simpa [leave] using ihm _ _ _ hm
      · rw [leave, leave_zero]

theorem pass_of_value? {document : Json} (h : value? fuel words = some (document, rest)) :
    pass 0 words = some rest :=
  (reads_to_end fuel).1 _ _ _ h

theorem leave_of_memberRow? {members : List (Bytes × Json)}
    (h : memberRow? fuel words = some (members, rest)) : leave 1 words = some rest :=
  (reads_to_end fuel).2.2 _ _ _ h

end Strongbox.Json
