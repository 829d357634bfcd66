import Strongbox.Proofs.Json.Scalar

/-!
# Integers read back

An integer is written with the digits of its size behind its sign, and without a zero in front. It
is read as the same integer, and as one number with what follows left alone.
-/

namespace Strongbox.Json

variable {n limit : Nat} {c : UInt8} {rest digits : Bytes}

/-! ## Digits -/

def decimal (n : Nat) : Bytes := Bytes.ofString (toString n)

def signed (i : Int) : Bytes := Bytes.ofString (toString i)

theorem signed_natCast (n : Nat) : signed n = decimal n := rfl

theorem signed_negSucc (n : Nat) : signed (.negSucc n) = 0x2d :: decimal (n + 1) := by
  have text : toString (Int.negSucc n) = "-" ++ toString (n + 1) := rfl
  rw [signed, text, Bytes.ofString_append]
  rfl

theorem utf8EncodeChar_digitChar (h : n < 10) :
    String.utf8EncodeChar n.digitChar = [UInt8.ofNat (0x30 + n)] := by
  have all : ∀ n < 10, String.utf8EncodeChar n.digitChar = [UInt8.ofNat (0x30 + n)] := by decide
  exact all n h

/-- The last digit stands behind the digits of a tenth of the number. -/
theorem decimal_eq (n : Nat) : decimal n =
    (if n < 10 then [] else decimal (n / 10)) ++ [UInt8.ofNat (0x30 + n % 10)] := by
  have digits (m : Nat) : decimal m = (Nat.toDigits 10 m).flatMap String.utf8EncodeChar := by
    rw [decimal, Nat.toString_eq_ofList_toDigits, Bytes.ofString_ofList]
  rw [digits n, digits (n / 10), Nat.toDigits_eq_if (by decide)]
  split
  · next single => simp [utf8EncodeChar_digitChar single, Nat.mod_eq_of_lt single]
  · simp [utf8EncodeChar_digitChar (Nat.mod_lt n (by decide : 10 > 0))]

theorem isDigit_ofNat (h : n < 10) : isDigit (UInt8.ofNat (0x30 + n)) = true := by
  have all : ∀ n < 10, isDigit (UInt8.ofNat (0x30 + n)) = true := by decide
  exact all n h

theorem toNat_ofNat_digit (h : n < 10) : (UInt8.ofNat (0x30 + n)).toNat - 0x30 = n := by
  have all : ∀ n < 10, (UInt8.ofNat (0x30 + n)).toNat - 0x30 = n := by decide
  exact all n h

theorem isDigit_decimal (n : Nat) : ∀ b ∈ decimal n, isDigit b = true := by
  induction n using Nat.strongRecOn with
  | ind n ih =>
    have last : isDigit (UInt8.ofNat (0x30 + n % 10)) = true :=
      isDigit_ofNat (Nat.mod_lt n (by decide))
    rw [decimal_eq]
    split
    · simpa using last
    · next more =>
      refine List.forall_mem_append.2 ⟨ih (n / 10) (by omega), by simpa using last⟩

theorem digitsValue_decimal (n : Nat) : digitsValue (decimal n) = n := by
  induction n using Nat.strongRecOn with
  | ind n ih =>
    have last := toNat_ofNat_digit (Nat.mod_lt n (by decide : 10 > 0))
    rw [decimal_eq, digitsValue, List.foldl_append, List.foldl_cons, List.foldl_nil, last]
    split
    · next single => simp [Nat.mod_eq_of_lt single]
    · next more =>
      have front : (decimal (n / 10)).foldl (fun n b => 10 * n + (b.toNat - 0x30)) 0 = n / 10 :=
        ih (n / 10) (by omega)
      rw [front]
      omega

/-- A number is written as zero, or without a zero in front. -/
theorem decimal_begins (n : Nat) :
    decimal n = [0x30] ∨ ∃ c rest, decimal n = c :: rest ∧ isDigit c = true ∧ c ≠ 0x30 := by
  induction n using Nat.strongRecOn with
  | ind n ih =>
    by_cases single : n < 10
    · have all : ∀ n < 10, UInt8.ofNat (0x30 + n % 10) = 0x30 ∨
          (isDigit (UInt8.ofNat (0x30 + n % 10)) = true ∧ UInt8.ofNat (0x30 + n % 10) ≠ 0x30) := by
        decide
      rw [decimal_eq, if_pos single, List.nil_append]
      exact (all n single).imp (congrArg ([·])) fun h => ⟨_, [], rfl, h⟩
    · rw [decimal_eq, if_neg single]
      obtain zero | ⟨c, rest, whole, first⟩ := ih (n / 10) (by omega)
      · have value := digitsValue_decimal (n / 10)
        rw [zero] at value
        have : n / 10 = 0 := value.symm
        omega
      · exact .inr ⟨c, _, by rw [whole, List.cons_append], first⟩

theorem exists_decimal_cons (n : Nat) : ∃ c rest, decimal n = c :: rest ∧ isDigit c = true := by
  obtain zero | ⟨c, rest, whole, digit, -⟩ := decimal_begins n
  · exact ⟨0x30, [], zero, rfl⟩
  · exact ⟨c, rest, whole, digit⟩

/-! ## Words -/

/-- The byte goes on with no number: it is no digit, and begins no fraction and no power. -/
def Stops (c : UInt8) : Prop := isDigit c = false ∧ c ∉ [0x2e, 0x65, 0x45]

instance : Decidable (Stops c) := inferInstanceAs (Decidable (_ ∧ _))

theorem digitRun_append_cons (all : ∀ b ∈ digits, isDigit b = true) (stop : Stops c) :
    digitRun (digits ++ c :: rest) = (digits, c :: rest) := by
  rw [digitRun, List.takeWhile_append_of_pos all, List.dropWhile_append_of_pos all,
    List.takeWhile_cons_of_neg (by simp [stop.1]), List.dropWhile_cons_of_neg (by simp [stop.1]),
    List.append_nil]

theorem wholePart?_decimal (stop : Stops c) :
    wholePart? (decimal n ++ c :: rest) = some (decimal n, c :: rest) := by
  obtain zero | ⟨first, tail, whole, -, nonzero⟩ := decimal_begins n
  · rw [zero]
    rfl
  · have run : digitRun (decimal n ++ c :: rest) = (decimal n, c :: rest) :=
      digitRun_append_cons (isDigit_decimal n) stop
    rw [whole, List.cons_append] at run ⊢
    rw [wholePart?.eq_2 _ fun _ he => nonzero (List.cons.inj he).1, digits?, run]
    rfl

theorem fraction?_of_stops (stop : Stops c) : fraction? (c :: rest) = some ([], c :: rest) :=
  fraction?.eq_2 _ fun _ he => stop.2 (by simp [(List.cons.inj he).1])

theorem power?_of_stops (stop : Stops c) : power? (c :: rest) = some ([], c :: rest) :=
  if_neg fun letter => stop.2 (by simpa using .inr (by simpa using letter))

/-- What stands before the digits of an integer. -/
def minus : Int → Bytes
  | .ofNat _ => []
  | .negSucc _ => [0x2d]

theorem signed_eq (i : Int) : signed i = minus i ++ decimal i.natAbs := by
  cases i with
  | ofNat n => rfl
  | negSucc n => exact signed_negSucc n

theorem ne_minus_of_isDigit (digit : isDigit c = true) : c ≠ 0x2d := by
  rintro rfl
  cases digit

theorem sign_signed (i : Int) (rest : Bytes) :
    sign [0x2d] (signed i ++ rest) = (minus i, decimal i.natAbs ++ rest) := by
  rw [signed_eq]
  cases i with
  | ofNat n =>
    obtain ⟨first, tail, whole, digit⟩ := exists_decimal_cons n
    rw [Int.natAbs_ofNat', whole]
    exact if_neg (by simpa using ne_minus_of_isDigit digit)
  | negSucc n => rfl

theorem number?_signed (i : Int) (stop : Stops c) :
    number? (signed i ++ c :: rest) = some (signed i, c :: rest) := by
  simp only [number?, sign_signed, wholePart?_decimal stop, fraction?_of_stops stop,
    power?_of_stops stop, Option.bind_eq_bind, Option.bind_some, Option.pure_def, List.append_nil,
    ← signed_eq]

/-- A number is told from the other words by its first byte. -/
theorem lexeme?_of_number (first : c = 0x2d ∨ isDigit c = true) :
    lexeme? (c :: rest) = (number? (c :: rest)).map fun (literal, after) =>
      (.number literal, after) := by
  rw [lexeme?.eq_def]
  split <;> simp_all [isDigit]

theorem exists_signed_cons (i : Int) :
    ∃ c rest, signed i = c :: rest ∧ (c = 0x2d ∨ isDigit c = true) := by
  cases i with
  | ofNat n =>
    obtain ⟨c, rest, whole, digit⟩ := exists_decimal_cons n
    exact ⟨c, rest, whole, .inr digit⟩
  | negSucc n => exact ⟨0x2d, _, signed_negSucc n, .inl rfl⟩

theorem not_isSpace_of_number (first : c = 0x2d ∨ isDigit c = true) : isSpace c = false := by
  obtain rfl | digit := first
  · rfl
  · simp only [isDigit, isSpace, Bool.and_eq_true, decide_eq_true_eq] at *
    grind

theorem lexemes?_of_lexeme? {s after : Bytes} {word : Lexeme} (solid : isSpace c = false)
    (h : lexeme? (c :: s) = some (word, after)) :
    lexemes? (c :: s) = (lexemes? after).map (word :: ·) := by
  rw [lexemes?, if_neg (by simp [solid])]
  split
  · next none => simp [h] at none
  · next found =>
    rw [h] at found
    cases found
    rfl

theorem lexemes?_signed (i : Int) (stop : Stops c) :
    lexemes? (signed i ++ c :: rest) =
      (lexemes? (c :: rest)).map (.number (signed i) :: ·) := by
  obtain ⟨first, tail, whole, start⟩ := exists_signed_cons i
  have read : number? (signed i ++ c :: rest) = some (signed i, c :: rest) := number?_signed i stop
  rw [whole, List.cons_append] at read ⊢
  refine lexemes?_of_lexeme? (not_isSpace_of_number start) ?_
  rw [lexeme?_of_number start, read, Option.map_some]

/-! ## Values -/

theorem natural?_decimal (n : Nat) : (number (decimal n)).natural? = some n := by
  have all : (decimal n).all isDigit = true := List.all_eq_true.2 (isDigit_decimal n)
  simp only [natural?, all, if_true, digitsValue_decimal]

theorem word?_decimal (h : n < Word.count64) : (number (decimal n)).word? = some n := by
  simp [word?, natural?_decimal, h]

/-- Integers of sixty-four bits have the value that was written. -/
theorem integer?_signed {i : Int} (low : -(Word.maxInt64 + 1 : Nat) ≤ i)
    (high : i ≤ Word.maxInt64) : (number (signed i)).integer? = some i := by
  cases i with
  | ofNat n =>
    obtain ⟨first, tail, whole, digit⟩ := exists_decimal_cons n
    have small : n ≤ Word.maxInt64 := Int.ofNat_le.1 high
    have value : (number (signed n)).integer? =
        ((number (decimal n)).natural?.filter (· ≤ Word.maxInt64)).map Int.ofNat := by
      rw [signed_natCast, whole]
      exact integer?.eq_2 _ fun _ he => ne_minus_of_isDigit digit (List.cons.inj (number.inj he)).1
    simp only [Int.ofNat_eq_natCast, value, natural?_decimal, Option.filter_some]
    simp [small]
  | negSucc n =>
    have all : (decimal (n + 1)).all isDigit = true := List.all_eq_true.2 (isDigit_decimal _)
    have small : n + 1 ≤ Word.maxInt64 + 1 := by omega
    rw [signed_negSucc, integer?, digitsValue_decimal, if_pos ⟨all, n.succ_pos, small⟩]
    rfl

/-! ## In place -/

/-- What comes of writing digits behind a number. -/
def appended (n : Nat) (digits : Bytes) : Nat :=
  digits.foldl (fun n b => 10 * n + (b.toNat - 0x30)) n

theorem le_appended (n : Nat) (digits : Bytes) : n ≤ appended n digits := by
  induction digits generalizing n with
  | nil => exact Nat.le_refl n
  | cons d digits ih =>
    have := ih (10 * n + (d.toNat - 0x30))
    simp only [appended, List.foldl_cons] at this ⊢
    omega

/-- Digits are all kept, if the number stays below the limit. -/
theorem appendDigits_of_lt (h : appended n digits < limit) :
    appendDigits limit n digits = (appended n digits, digits.length) := by
  induction digits generalizing n with
  | nil => rfl
  | cons d digits ih =>
    have below : 10 * n + (d.toNat - 0x30) < limit := Nat.lt_of_le_of_lt (le_appended _ digits) h
    have rest := ih (n := 10 * n + (d.toNat - 0x30)) h
    simp only [appendDigits, if_pos below, rest]
    rfl

theorem nearest_le (h : 0 < n) : Magnitude.nearest n ≤ 2 * n := by
  have unit_le : 2 ^ (n.log2 + 1 - Magnitude.precision) ≤ n := by
    refine Nat.le_trans (Nat.pow_le_pow_right Nat.two_pos ?_) (Nat.log2_self_le (Nat.ne_of_gt h))
    simp only [Magnitude.precision]
    omega
  have round (unit : Nat) (small : unit ≤ n) : Magnitude.roundTo unit n ≤ 2 * n := by
    have whole := Nat.div_mul_le_self n unit
    simp only [Magnitude.roundTo, Nat.add_mul, Nat.one_mul]
    split <;> omega
  exact round _ unit_le

theorem isFinite_of_lt (h : n < Word.count64) : Magnitude.isFinite ⟨n, 0⟩ = true := by
  cases n with
  | zero => rfl
  | succ n =>
    have one : Magnitude.nearest (Nat.pow 10 0) = 1 := by decide
    have kept : Magnitude.nearest (n + 1) < Magnitude.ceiling :=
      calc Magnitude.nearest (n + 1)
        _ ≤ 2 * (n + 1) := nearest_le n.succ_pos
        _ < 2 * Word.count64 := by omega
        _ < Magnitude.ceiling := by decide +kernel
    show (decide (0 ≤ Magnitude.maxExponent) &&
      decide (Magnitude.nearest (n + 1) * Magnitude.nearest (Nat.pow 10 0) < Magnitude.ceiling)) =
        true
    rw [one, Nat.mul_one, decide_eq_true kept]
    rfl

namespace Reader

theorem sign_of_stops {signs : List UInt8} (stop : Stops c) (h : signs ⊆ [0x2e, 0x65, 0x45]) :
    sign signs (c :: rest) = ([], c :: rest) :=
  if_neg fun hc => stop.2 (h (List.contains_iff_mem.1 hc))

theorem ends_numeralEnd_of_stops {whole : Nat} (h : whole < Word.count64) (stop : Stops c) :
    Ends (numeralEnd whole 0) (c :: rest) (fun _ left => left = c :: rest) fun _ => False := by
  have point : sign [0x2e] (c :: rest) = ([], c :: rest) := sign_of_stops stop (by simp)
  have letter : sign [0x65, 0x45] (c :: rest) = ([], c :: rest) := sign_of_stops stop (by simp)
  simp [numeralEnd, oneOf, point, letter, appendDigits, isFinite_of_lt h]

theorem ends_numeral_signed {i : Int} (small : i.natAbs < Word.count64) (stop : Stops c) :
    Ends numeral (signed i ++ c :: rest) (fun _ left => left = c :: rest) fun _ => False := by
  rw [numeral_eq]
  simp only [oneOf, ends_bind, ends_split, sign_signed]
  obtain zero | ⟨first, tail, whole, digit, nonzero⟩ := decimal_begins i.natAbs
  · have first : isDigit 0x30 = true := rfl
    have kept : appendDigits Word.count64 (digitsValue [0x30]) [] = (0, 0) := rfl
    rw [zero, List.singleton_append]
    simp only [ends_next, ends_guard, first, if_true, ends_bind, ends_pure, ends_peek,
      List.head?_cons, kept]
    simpa [stop.1] using ends_numeralEnd_of_stops (by decide) stop
  · have tailDigits : ∀ b ∈ tail, isDigit b = true := fun b hb =>
      isDigit_decimal i.natAbs b (whole ▸ List.mem_cons_of_mem first hb)
    have value : appended (digitsValue [first]) tail = i.natAbs := by
      rw [← digitsValue_decimal i.natAbs, whole]
      rfl
    have kept : appendDigits Word.count64 (digitsValue [first]) tail = (i.natAbs, tail.length) := by
      rw [appendDigits_of_lt (by rw [value]; exact small), value]
    rw [whole, List.cons_append]
    simp only [ends_next, ends_guard, digit, if_true, ends_bind, nonzero, if_false, digits,
      ends_split, digitRun_append_cons tailDigits stop, ends_peek, List.head?_cons, kept]
    simpa [stop.1] using ends_numeralEnd_of_stops small stop

end Reader

end Strongbox.Json
