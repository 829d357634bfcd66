import Strongbox.Proofs.Json.Reader
import Strongbox.Proofs.Json.Written

/-!
# Where texts and numbers end in place

A text or a number that is read in place ends where the word ends, or stops within it: a text goes
on from inside, a number before one of its digits.
-/

namespace Strongbox.Json.Reader

variable {s after raw : Bytes}

/-- A text in place is the text of the word, if it has one. -/
theorem ends_quoted (s : Bytes) :
    Ends quoted s (fun key left => ∃ raw, textBody s = some (raw, left) ∧ plain? raw = some key)
      fun left => ∀ raw after, textBody s = some (raw, after) →
        plain? raw = none ∧ (left = after ∨ ∃ inner, textBody left = some (inner, after)) := by
  have tells := tells_plainBody s
  simp only [quoted, ends_bind, ends_get, ends_set]
  generalize plainBody s = result at tells
  obtain ⟨_ | plain, left⟩ := result
  · intro raw after h
    obtain ⟨none, place⟩ := tells raw after h
    exact ⟨by rw [plain?, none]; rfl, place⟩
  · obtain ⟨raw, ht, hplain⟩ := tells
    have same : plain? raw = Bytes.toString? plain := by rw [plain?, hplain]; rfl
    rw [Option.bind_some]
    cases hs : Bytes.toString? plain with
    | some key => exact ⟨raw, ht, by rw [same, hs]⟩
    | none =>
      intro raw' after h
      obtain ⟨rfl, rfl⟩ : raw = raw' ∧ left = after := by simpa [ht] using h
      exact ⟨by rw [same, hs], .inl rfl⟩

/-! ## Numbers -/

/-- A number that ends where it should, or before one of its digits. -/
def Halts (after left : Bytes) : Prop :=
  left = after ∨ ∃ c tail, left = c :: tail ∧ isDigit c = true

theorem digits?_eq_some {b digits : Bytes} (h : digits? b = some (digits, after)) :
    ∃ c tail, b = c :: tail ∧ isDigit c = true ∧ digits = c :: tail.takeWhile isDigit ∧
      after = tail.dropWhile isDigit := by
  unfold digits? digitRun at h
  split at h
  · cases h
  · next some =>
    cases h
    cases b with
    | nil => simp at some
    | cons c tail =>
      by_cases hc : isDigit c = true
      · exact ⟨c, tail, rfl, hc, by simp [hc], by simp [hc]⟩
      · simp [hc] at some

theorem ends_exponent {digits : Bytes} (significand : Nat)
    (h : digits? (sign [0x2b, 0x2d] s).2 = some (digits, after)) :
    Ends (exponent significand) s (fun _ left => left = after) (Halts after) := by
  obtain ⟨c, tail, hs, hc, -, rfl⟩ := digits?_eq_some h
  simp only [exponent, oneOf, ends_bind, ends_split, hs, ends_next, ends_guard, hc, if_true,
    ends_get, ends_ite, ends_modify, ends_failure, ends_set, ends_pure]
  split
  · next past =>
    -- the digit past the range is the last one taken, so what is left are digits of the exponent
    have split : tail = (digitRun tail).1 ++ tail.dropWhile isDigit := (digitRun_append tail).symm
    generalize appendDigits (Word.maxInt32 + 1) (digitsValue [c]) (digitRun tail).1 = kept at past
    have digit : ∀ b ∈ (digitRun tail).1.drop (kept.2 + 1), isDigit b = true := fun b hb =>
      List.all_eq_true.1 List.all_takeWhile b (List.mem_of_mem_drop hb)
    generalize tail.dropWhile isDigit = after at split
    generalize (digitRun tail).1 = run at past split digit
    rw [split, List.drop_append_of_le_length past.1]
    cases hrun : run.drop (kept.2 + 1) with
    | nil => exact .inl rfl
    | cons d more => exact .inr ⟨d, more ++ after, rfl, digit d (by simp [hrun])⟩
  · rfl

theorem sign_of_ne {signs : List UInt8} (h : ∀ c tail, s = c :: tail → c ∉ signs) :
    sign signs s = ([], s) := by
  cases s with
  | nil => rfl
  | cons c tail => simp [sign, h c tail rfl]

/-- What is taken of a number after the digits before its point: `whole` is the value of those that
count, and `surplus` is how many do not. -/
def numeralEnd (whole surplus : Nat) : Reader Unit := do
  let point ← oneOf [0x2e]
  let places ← if point = [] then pure [] else digits
  guard (point = [] ∨ places ≠ [])
  let (significand, placeCount) := appendDigits Word.count64 whole places
  let letter ← oneOf [0x65, 0x45]
  let power ← if letter = [] then pure 0 else exponent significand
  guard (Magnitude.isFinite ⟨significand, surplus - placeCount + power⟩)

theorem numeral_eq : numeral = (do
    let _ ← oneOf [0x2d]
    let first ← next
    guard (isDigit first)
    let run ← if first = 0x30 then pure [] else digits
    guard ((← peek).all fun b => !isDigit b)
    let (whole, count) := appendDigits Word.count64 (digitsValue [first]) run
    numeralEnd whole (run.length - count)) :=
  rfl

theorem sign_of_fraction? {fraction : Bytes} (h : fraction? s = some (fraction, after)) :
    sign [0x2e] s = ([], after) ∨
      ∃ rest digits, sign [0x2e] s = ([0x2e], rest) ∧ digits? rest = some (digits, after) := by
  unfold fraction? at h
  split at h
  · obtain ⟨⟨ds, _⟩, hd, he⟩ := Option.map_eq_some_iff.1 h
    cases he
    exact .inr ⟨_, ds, rfl, hd⟩
  · next _ none =>
    cases h
    exact .inl (sign_of_ne fun c tail hs hc => none tail (by rw [hs, List.mem_singleton.1 hc]))

theorem sign_of_power? {power : Bytes} (h : power? s = some (power, after)) :
    sign [0x65, 0x45] s = ([], after) ∨ ∃ letter rest digits,
      sign [0x65, 0x45] s = ([letter], rest) ∧
        digits? (sign [0x2b, 0x2d] rest).2 = some (digits, after) := by
  unfold power? at h
  split at h
  · next c rest =>
    split at h
    · next letter =>
      obtain ⟨⟨ds, _⟩, hd, he⟩ := Option.map_eq_some_iff.1 h
      cases he
      exact .inr ⟨c, rest, ds, if_pos (by simpa using letter), hd⟩
    · next letter =>
      cases h
      exact .inl (if_neg (by simpa using letter))
  · cases h
    exact .inl rfl

theorem ends_numeralEnd {fraction power left : Bytes} (whole surplus : Nat)
    (hf : fraction? s = some (fraction, left)) (hp : power? left = some (power, after)) :
    Ends (numeralEnd whole surplus) s (fun _ left => left = after) (Halts after) := by
  have last (significand : Nat) (finite : Int → Prop) [DecidablePred finite] :
      Ends (do
        let letter ← oneOf [0x65, 0x45]
        let power ← if letter = [] then pure 0 else exponent significand
        guard (finite power)) left (fun _ left => left = after) (Halts after) := by
    have kept (p : Prop) [Decidable p] : if p then after = after else Halts after after := by
      split
      · trivial
      · exact .inl rfl
    obtain none | ⟨letter, rest, ds, letter, hd⟩ := sign_of_power? hp
    · simpa [oneOf, none] using kept (finite 0)
    · simp only [oneOf, ends_bind, ends_split, letter, List.cons_ne_nil, if_false, ends_guard]
      refine (ends_exponent significand hd).mono (fun power left h => ?_) fun _ => id
      cases h
      exact kept (finite power)
  obtain none | ⟨rest, ds, point, hd⟩ := sign_of_fraction? hf
  · simp only [numeralEnd, ends_bind, oneOf, ends_split, none, if_true, ends_pure, ends_guard,
      true_or]
    exact last _ _
  · have run : digitRun rest = (ds, left) := by
      unfold digits? at hd
      split at hd <;> simp_all
    simp only [numeralEnd, ends_bind, oneOf, ends_split, point, List.cons_ne_nil, if_false, digits,
      run, ends_guard, false_or, digits?_ne_nil hd, ne_eq, not_false_eq_true, if_true]
    exact last _ _

theorem ends_numeral {literal : Bytes} (h : number? s = some (literal, after)) :
    Ends numeral s (fun _ left => left = after) (Halts after) := by
  obtain ⟨⟨whole, r₁⟩, h₁, h⟩ := Option.bind_eq_some_iff.1 h
  obtain ⟨⟨fraction, r₂⟩, h₂, h⟩ := Option.bind_eq_some_iff.1 h
  obtain ⟨⟨power, r₃⟩, h₃, h⟩ := Option.bind_eq_some_iff.1 h
  cases h
  have rest (whole surplus : Nat) : if (r₁.head?.all fun b => !isDigit b) = true then
      Ends (numeralEnd whole surplus) r₁ (fun _ left => left = after) (Halts after)
      else Halts after r₁ := by
    split
    · exact ends_numeralEnd _ _ h₂ h₃
    · next digit =>
      cases r₁ with
      | nil => simp at digit
      | cons c tail => exact .inr ⟨c, tail, rfl, by simpa using digit⟩
  rw [numeral_eq]
  simp only [oneOf, ends_bind, ends_split]
  unfold wholePart? at h₁
  split at h₁
  · next tail hs =>
    cases h₁
    simpa [hs, isDigit] using rest _ _
  · next none =>
    obtain ⟨c, tail, hs, hc, -, rfl⟩ := digits?_eq_some h₁
    have zero : c ≠ 0x30 := fun h => none tail (by rw [hs, h])
    simp only [hs, ends_next, ends_guard, hc, if_true, ends_bind, zero, if_false, digits,
      ends_split, ends_peek]
    exact rest _ _

end Strongbox.Json.Reader
