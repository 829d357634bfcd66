import Strongbox.Bytes

/-!
# Lexemes of structured text

The words that JSON text is made of: marks, texts, numbers and three names. Texts keep their escapes
and numbers their digits, so that what nobody asks for is never converted.
-/

namespace Strongbox.Json

/-- One word of a text. -/
inductive Lexeme where
  | beginList
  | endList
  | beginObject
  | endObject
  | comma
  | colon
  | text (raw : Bytes)
  | number (literal : Bytes)
  | true
  | false
  | null
  deriving Repr, DecidableEq, Inhabited

def isDigit (b : UInt8) : Bool := 0x30 ≤ b && b ≤ 0x39

def isHexDigit (b : UInt8) : Bool :=
  isDigit b || (0x41 ≤ b && b ≤ 0x46) || (0x61 ≤ b && b ≤ 0x66)

/-- The bytes that may follow a backslash on their own. -/
def isEscape (b : UInt8) : Bool := [0x22, 0x5c, 0x2f, 0x62, 0x66, 0x6e, 0x72, 0x74].contains b

def isSpace (b : UInt8) : Bool := b == 0x20 || b == 0x09 || b == 0x0a || b == 0x0d

/-- The inside of a text whose opening mark has been read, and what follows its closing mark. -/
def textBody : Bytes → Option (Bytes × Bytes)
  | 0x22 :: rest => some ([], rest)
  | 0x5c :: 0x75 :: a :: b :: c :: d :: rest =>
    if isHexDigit a && isHexDigit b && isHexDigit c && isHexDigit d then
      (textBody rest).map fun (raw, after) => (0x5c :: 0x75 :: a :: b :: c :: d :: raw, after)
    else none
  | 0x5c :: e :: rest =>
    if isEscape e then (textBody rest).map fun (raw, after) => (0x5c :: e :: raw, after) else none
  | c :: rest =>
    if c < 0x20 || c == 0x5c then none
    else (textBody rest).map fun (raw, after) => (c :: raw, after)
  | [] => none

def digitRun (b : Bytes) : Bytes × Bytes := (b.takeWhile isDigit, b.dropWhile isDigit)

def digits? (b : Bytes) : Option (Bytes × Bytes) :=
  if (digitRun b).1.isEmpty then none else some (digitRun b)

/-- The integer digits at the start: a lone zero, or digits that do not begin with one. -/
def wholePart? : Bytes → Option (Bytes × Bytes)
  | 0x30 :: rest => some ([0x30], rest)
  | b => digits? b

def fraction? : Bytes → Option (Bytes × Bytes)
  | 0x2e :: rest => (digits? rest).map fun (ds, after) => (0x2e :: ds, after)
  | b => some ([], b)

def sign (signs : List UInt8) : Bytes → Bytes × Bytes
  | c :: rest => if signs.contains c then ([c], rest) else ([], c :: rest)
  | [] => ([], [])

def power? : Bytes → Option (Bytes × Bytes)
  | c :: rest =>
    if c == 0x65 || c == 0x45 then
      (digits? (sign [0x2b, 0x2d] rest).2).map fun (ds, after) =>
        (c :: (sign [0x2b, 0x2d] rest).1 ++ ds, after)
    else some ([], c :: rest)
  | [] => some ([], [])

def number? (b : Bytes) : Option (Bytes × Bytes) := do
  let (whole, rest) ← wholePart? (sign [0x2d] b).2
  let (fraction, rest) ← fraction? rest
  let (power, rest) ← power? rest
  return ((sign [0x2d] b).1 ++ whole ++ fraction ++ power, rest)

def lexeme? : Bytes → Option (Lexeme × Bytes)
  | 0x5b :: rest => some (.beginList, rest)
  | 0x5d :: rest => some (.endList, rest)
  | 0x7b :: rest => some (.beginObject, rest)
  | 0x7d :: rest => some (.endObject, rest)
  | 0x2c :: rest => some (.comma, rest)
  | 0x3a :: rest => some (.colon, rest)
  | 0x22 :: rest => (textBody rest).map fun (raw, after) => (.text raw, after)
  | 0x74 :: 0x72 :: 0x75 :: 0x65 :: rest => some (.true, rest)
  | 0x66 :: 0x61 :: 0x6c :: 0x73 :: 0x65 :: rest => some (.false, rest)
  | 0x6e :: 0x75 :: 0x6c :: 0x6c :: rest => some (.null, rest)
  | b => (number? b).map fun (literal, after) => (.number literal, after)

theorem textBody_length_lt {b raw rest : Bytes} (h : textBody b = some (raw, rest)) :
    rest.length < b.length := by
  fun_induction textBody b generalizing raw with
  | case1 => simp_all
  | case2 a b c d tail hx ih =>
    obtain ⟨⟨r, after⟩, hr, heq⟩ := Option.map_eq_some_iff.1 h
    simp only [Prod.mk.injEq] at heq
    have := ih (heq.2 ▸ hr)
    simp only [List.length_cons]
    omega
  | case3 => cases h
  | case4 e tail _ hx ih =>
    obtain ⟨⟨r, after⟩, hr, heq⟩ := Option.map_eq_some_iff.1 h
    simp only [Prod.mk.injEq] at heq
    have := ih (heq.2 ▸ hr)
    simp only [List.length_cons]
    omega
  | case5 => cases h
  | case6 => cases h
  | case7 c tail _ _ _ hx ih =>
    obtain ⟨⟨r, after⟩, hr, heq⟩ := Option.map_eq_some_iff.1 h
    simp only [Prod.mk.injEq] at heq
    have := ih (heq.2 ▸ hr)
    simp only [List.length_cons]
    omega
  | case8 => cases h

theorem digitRun_append (b : Bytes) : (digitRun b).1 ++ (digitRun b).2 = b :=
  List.takeWhile_append_dropWhile

/-- A reader gives back what it took and what it left. -/
def Splits (read : Bytes → Option (Bytes × Bytes)) : Prop :=
  ∀ b taken rest, read b = some (taken, rest) → taken ++ rest = b

theorem digits?_splits : Splits digits? := by
  intro b taken rest h
  unfold digits? at h
  split at h
  · cases h
  · simp only [Option.some.injEq] at h
    have := digitRun_append b
    rwa [h] at this

theorem digits?_ne_nil {b taken rest : Bytes} (h : digits? b = some (taken, rest)) :
    taken ≠ [] := by
  unfold digits? at h
  split at h
  · cases h
  · rename_i hne
    simp only [Option.some.injEq] at h
    rw [h] at hne
    simpa using hne

theorem wholePart?_splits : Splits wholePart? := by
  intro b taken rest h
  unfold wholePart? at h
  split at h
  · simp only [Option.some.injEq, Prod.mk.injEq] at h
    simp [← h.1, h.2]
  · exact digits?_splits _ _ _ h

theorem wholePart?_ne_nil {b taken rest : Bytes} (h : wholePart? b = some (taken, rest)) :
    taken ≠ [] := by
  unfold wholePart? at h
  split at h
  · simp only [Option.some.injEq, Prod.mk.injEq] at h
    simp [← h.1]
  · exact digits?_ne_nil h

theorem sign_append (signs : List UInt8) (b : Bytes) :
    (sign signs b).1 ++ (sign signs b).2 = b := by
  cases b with
  | nil => rfl
  | cons c rest => simp only [sign]; split <;> rfl

theorem fraction?_splits : Splits fraction? := by
  intro b taken rest h
  unfold fraction? at h
  split at h
  · obtain ⟨⟨ds, after⟩, hd, heq⟩ := Option.map_eq_some_iff.1 h
    simp only [Prod.mk.injEq] at heq
    rw [← heq.1, ← heq.2, List.cons_append, digits?_splits _ _ _ hd]
  · simp only [Option.some.injEq, Prod.mk.injEq] at h
    simp [← h.1, h.2]

theorem power?_splits : Splits power? := by
  intro b taken rest h
  unfold power? at h
  split at h
  · rename_i c tail
    split at h
    · generalize hs : sign [0x2b, 0x2d] tail = s at h
      obtain ⟨⟨ds, after⟩, hd, heq⟩ := Option.map_eq_some_iff.1 h
      simp only [Prod.mk.injEq] at heq
      rw [← heq.1, ← heq.2, List.cons_append, List.cons_append, List.append_assoc,
        digits?_splits _ _ _ hd, ← hs, sign_append]
    · simp only [Option.some.injEq, Prod.mk.injEq] at h
      simp [← h.1, h.2]
  · simp only [Option.some.injEq, Prod.mk.injEq] at h
    simp [← h.1, h.2]

theorem number?_splits : Splits number? := by
  intro b taken rest h
  unfold number? at h
  generalize hs : sign [0x2d] b = s at h
  obtain ⟨⟨whole, r₁⟩, h₁, h⟩ := Option.bind_eq_some_iff.1 h
  obtain ⟨⟨fraction, r₂⟩, h₂, h⟩ := Option.bind_eq_some_iff.1 h
  obtain ⟨⟨power, r₃⟩, h₃, h⟩ := Option.bind_eq_some_iff.1 h
  simp only [pure, Option.some.injEq, Prod.mk.injEq] at h
  rw [← h.1, ← h.2, List.append_assoc, power?_splits _ _ _ h₃, List.append_assoc,
    fraction?_splits _ _ _ h₂, List.append_assoc, wholePart?_splits _ _ _ h₁, ← hs, sign_append]

theorem number?_length_lt {b taken rest : Bytes} (h : number? b = some (taken, rest)) :
    rest.length < b.length := by
  have split := number?_splits _ _ _ h
  obtain ⟨⟨whole, r₁⟩, h₁, h⟩ := Option.bind_eq_some_iff.1 h
  obtain ⟨⟨fraction, r₂⟩, h₂, h⟩ := Option.bind_eq_some_iff.1 h
  obtain ⟨⟨power, r₃⟩, h₃, h⟩ := Option.bind_eq_some_iff.1 h
  simp only [pure, Option.some.injEq, Prod.mk.injEq] at h
  have := List.length_pos_iff.2 (wholePart?_ne_nil h₁)
  rw [← split, ← h.1]
  simp only [List.length_append]
  omega

theorem lexeme?_length_lt {b rest : Bytes} {l : Lexeme} (h : lexeme? b = some (l, rest)) :
    rest.length < b.length := by
  unfold lexeme? at h
  split at h
  case h_7 =>
    obtain ⟨⟨raw, after⟩, hr, heq⟩ := Option.map_eq_some_iff.1 h
    simp only [Prod.mk.injEq] at heq
    have := textBody_length_lt hr
    simp only [List.length_cons, ← heq.2]
    omega
  case h_11 =>
    obtain ⟨⟨literal, after⟩, hn, heq⟩ := Option.map_eq_some_iff.1 h
    simp only [Prod.mk.injEq] at heq
    exact heq.2 ▸ number?_length_lt hn
  all_goals
    simp only [Option.some.injEq, Prod.mk.injEq] at h
    simp only [List.length_cons, ← h.2]
    omega

def lexemes? (b : Bytes) : Option (List Lexeme) :=
  match b with
  | [] => some []
  | c :: rest =>
    if isSpace c then lexemes? rest
    else
      match h : lexeme? (c :: rest) with
      | none => none
      | some (l, after) =>
        have := lexeme?_length_lt h
        (lexemes? after).map (l :: ·)
termination_by b.length
decreasing_by
  · simp only [List.length_cons, Nat.lt_succ_self]
  · assumption

end Strongbox.Json
