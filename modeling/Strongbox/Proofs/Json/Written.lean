import Mathlib.Data.List.Basic
import Strongbox.Json.Reader

/-!
# How words are written

What stands in a text where a word is read, and what stands between two texts: a reader that takes
the end of one text for the start of another reads what is between them.
-/

namespace Strongbox.Json

open Reader

variable {s after body raw taken : Bytes} {c : UInt8} {word : Lexeme} {rest : List Lexeme}

/-! ## Words -/

/-- How a word is written at the start of a text, before what follows. -/
inductive Spelt : Lexeme → Bytes → Bytes → Prop where
  | beginList (after : Bytes) : Spelt .beginList (0x5b :: after) after
  | endList (after : Bytes) : Spelt .endList (0x5d :: after) after
  | beginObject (after : Bytes) : Spelt .beginObject (0x7b :: after) after
  | endObject (after : Bytes) : Spelt .endObject (0x7d :: after) after
  | comma (after : Bytes) : Spelt .comma (0x2c :: after) after
  | colon (after : Bytes) : Spelt .colon (0x3a :: after) after
  | text {body raw after : Bytes} (h : textBody body = some (raw, after)) :
      Spelt (.text raw) (0x22 :: body) after
  | number {c : UInt8} {tail literal after : Bytes} (first : c = 0x2d ∨ isDigit c = true)
      (h : number? (c :: tail) = some (literal, after)) : Spelt (.number literal) (c :: tail) after
  | isTrue (after : Bytes) : Spelt .true (0x74 :: 0x72 :: 0x75 :: 0x65 :: after) after
  | isFalse (after : Bytes) : Spelt .false (0x66 :: 0x61 :: 0x6c :: 0x73 :: 0x65 :: after) after
  | isNull (after : Bytes) : Spelt .null (0x6e :: 0x75 :: 0x6c :: 0x6c :: after) after

theorem number?_head {literal : Bytes} (h : number? s = some (literal, after)) :
    ∃ c tail, s = c :: tail ∧ (c = 0x2d ∨ isDigit c = true) := by
  obtain ⟨⟨whole, r⟩, hw, -⟩ := Option.bind_eq_some_iff.1 h
  cases s with
  | nil => simp [sign, wholePart?, digits?, digitRun] at hw
  | cons c tail =>
    refine ⟨c, tail, rfl, ?_⟩
    by_cases hs : c = 0x2d
    · exact .inl hs
    · right
      simp only [sign, List.contains_cons, List.contains_nil, Bool.or_false, beq_iff_eq, hs,
        if_false] at hw
      unfold wholePart? at hw
      split at hw
      · simp_all [isDigit]
      · by_contra hd
        simp [digits?, digitRun, hd] at hw

theorem spelt_of_lexeme? (h : lexeme? s = some (word, after)) : Spelt word s after := by
  unfold lexeme? at h
  split at h
  case h_7 =>
    obtain ⟨⟨raw, after⟩, ht, he⟩ := Option.map_eq_some_iff.1 h
    cases he
    exact .text ht
  case h_11 =>
    obtain ⟨⟨literal, after⟩, hn, he⟩ := Option.map_eq_some_iff.1 h
    cases he
    obtain ⟨c, tail, rfl, first⟩ := number?_head hn
    exact .number first hn
  all_goals
    cases h
    constructor

theorem lexemes?_dropWhile (s : Bytes) : lexemes? (s.dropWhile isSpace) = lexemes? s := by
  induction s with
  | nil => rfl
  | cons c tail ih =>
    by_cases hc : isSpace c = true
    · rw [List.dropWhile_cons_of_pos hc, ih, lexemes?, if_pos hc]
    · rw [List.dropWhile_cons_of_neg hc]

theorem not_isSpace_of_dropWhile {tail : Bytes} (h : s.dropWhile isSpace = c :: tail) :
    isSpace c = false := by
  simpa [h] using List.head?_dropWhile_not isSpace s

/-- The first word of a text stands after the blanks, and the other words follow it. -/
theorem first_lexeme (h : lexemes? s = some (word :: rest)) :
    ∃ after, Spelt word (s.dropWhile isSpace) after ∧ lexemes? after = some rest := by
  rw [← lexemes?_dropWhile] at h
  cases hs : s.dropWhile isSpace with
  | nil => simp [hs, lexemes?] at h
  | cons c tail =>
    rw [hs, lexemes?, if_neg (by simp [not_isSpace_of_dropWhile hs])] at h
    split at h
    · cases h
    · next w after hl =>
      obtain ⟨ws, hws, he⟩ := Option.map_eq_some_iff.1 h
      cases he
      exact ⟨after, spelt_of_lexeme? hl, hws⟩

def Lexeme.mark? : Lexeme → Option UInt8
  | beginList => some 0x5b
  | endList => some 0x5d
  | beginObject => some 0x7b
  | endObject => some 0x7d
  | comma => some 0x2c
  | colon => some 0x3a
  | _ => none

theorem mark_first (hm : word.mark? = some c) (h : lexemes? s = some (word :: rest)) :
    ∃ after, s.dropWhile isSpace = c :: after ∧ lexemes? after = some rest ∧
      after.length < s.length := by
  obtain ⟨after, spelt, ha⟩ := first_lexeme h
  have shorter := (List.dropWhile_sublist isSpace (l := s)).length_le
  generalize s.dropWhile isSpace = b at spelt shorter
  cases spelt <;> cases hm <;> exact ⟨_, rfl, ha, shorter⟩

theorem text_first (h : lexemes? s = some (.text raw :: rest)) :
    ∃ body after, s.dropWhile isSpace = 0x22 :: body ∧ textBody body = some (raw, after) ∧
      lexemes? after = some rest ∧ after.length < s.length := by
  obtain ⟨after, spelt, ha⟩ := first_lexeme h
  have shorter := (List.dropWhile_sublist isSpace (l := s)).length_le
  generalize s.dropWhile isSpace = b at spelt shorter
  cases spelt with
  | text ht => exact ⟨_, after, rfl, ht, ha, Nat.lt_trans (textBody_length_lt ht) shorter⟩

/-! ## Outside of texts -/

/-- The bytes that may stand outside of texts, but for the blanks that may not stand inside. -/
def isOutside (b : UInt8) : Bool :=
  isDigit b || [0x20, 0x2b, 0x2c, 0x2d, 0x2e, 0x3a, 0x45, 0x5b, 0x5d, 0x61, 0x65, 0x66, 0x6c, 0x6e,
    0x72, 0x73, 0x74, 0x75, 0x7b, 0x7d].contains b

theorem textBody_cons (hq : c ≠ 0x22) (hb : c ≠ 0x5c) : textBody (c :: s) =
    if c < 0x20 then none else (textBody s).map fun (raw, after) => (c :: raw, after) := by
  rw [textBody.eq_def]
  split <;> simp_all

theorem isOutside_of_isDigit (h : isDigit c = true) : isOutside c = true := by
  simp [isOutside, h]

theorem plain_of_isOutside (h : isOutside c = true) : c ≠ 0x22 ∧ c ≠ 0x5c ∧ ¬ c < 0x20 := by
  simp only [isOutside, isDigit, Bool.or_eq_true, Bool.and_eq_true, decide_eq_true_eq,
    List.contains_iff_mem, List.mem_cons, List.not_mem_nil, or_false] at h
  rcases h with ⟨low, high⟩ | h
  · refine ⟨?_, ?_, ?_⟩ <;> grind
  · rcases h with rfl | rfl | rfl | rfl | rfl | rfl | rfl | rfl | rfl | rfl | rfl | rfl | rfl |
      rfl | rfl | rfl | rfl | rfl | rfl | rfl <;> decide

/-- Of bytes that stand outside of texts, all those that a text may hold are there. -/
theorem textBody_append (h : ∀ b ∈ taken, isOutside b = true) : textBody (taken ++ s) =
    (textBody s).map fun (raw, after) => (taken ++ raw, after) := by
  induction taken with
  | nil => simp
  | cons c taken ih =>
    obtain ⟨hc, ht⟩ := List.forall_mem_cons.1 h
    obtain ⟨hq, hb, hl⟩ := plain_of_isOutside hc
    rw [List.cons_append, textBody_cons hq hb, if_neg hl, ih ht, Option.map_map]
    rfl

/-! ### Numbers -/

theorem isDigit_of_digits? {digits : Bytes} (h : digits? s = some (digits, after)) :
    ∀ b ∈ digits, isDigit b = true := by
  unfold digits? digitRun at h
  split at h
  · cases h
  · cases h
    exact fun b hb => List.all_eq_true.1 List.all_takeWhile b hb

theorem mem_signs {signs : List UInt8} {b : UInt8} (h : b ∈ (sign signs s).1) : b ∈ signs := by
  cases s with
  | nil => simp [sign] at h
  | cons c tail =>
    simp only [sign] at h
    split at h <;> simp_all

theorem isDigit_of_wholePart? {whole : Bytes} (h : wholePart? s = some (whole, after)) :
    ∀ b ∈ whole, isDigit b = true := by
  unfold wholePart? at h
  split at h
  · cases h
    simp [isDigit]
  · exact isDigit_of_digits? h

theorem number?_outside {literal : Bytes} (h : number? s = some (literal, after)) :
    ∀ b ∈ literal, isOutside b = true := by
  obtain ⟨⟨whole, r₁⟩, h₁, h⟩ := Option.bind_eq_some_iff.1 h
  obtain ⟨⟨fraction, r₂⟩, h₂, h⟩ := Option.bind_eq_some_iff.1 h
  obtain ⟨⟨power, r₃⟩, h₃, h⟩ := Option.bind_eq_some_iff.1 h
  cases h
  have outside : ∀ b, isDigit b = true → isOutside b = true := fun b => isOutside_of_isDigit
  intro b hb
  simp only [List.mem_append] at hb
  obtain ((hb | hb) | hb) | hb := hb
  · cases List.mem_singleton.1 (mem_signs hb)
    decide
  · exact outside b (isDigit_of_wholePart? h₁ b hb)
  · unfold fraction? at h₂
    split at h₂
    · obtain ⟨⟨ds, left⟩, hd, he⟩ := Option.map_eq_some_iff.1 h₂
      cases he
      obtain rfl | hb := List.mem_cons.1 hb
      · decide
      · exact outside b (isDigit_of_digits? hd b hb)
    · cases h₂
      simp at hb
  · unfold power? at h₃
    split at h₃
    · split at h₃
      · next letter =>
        obtain ⟨⟨ds, left⟩, hd, he⟩ := Option.map_eq_some_iff.1 h₃
        cases he
        obtain rfl | hb := List.mem_cons.1 hb
        · obtain rfl | rfl : b = 0x65 ∨ b = 0x45 := by simpa using letter
          all_goals decide
        · obtain hb | hb := List.mem_append.1 hb
          · have := mem_signs hb
            simp only [List.mem_cons, List.not_mem_nil, or_false] at this
            obtain rfl | rfl := this <;> decide
          · exact outside b (isDigit_of_digits? hd b hb)
      · cases h₃
        simp at hb
    · cases h₃
      simp at hb

/-! ### Between texts -/

theorem Spelt.outside (h : Spelt word s after) (notText : ∀ raw, word ≠ .text raw) :
    ∃ taken, s = taken ++ after ∧ ∀ b ∈ taken, isOutside b = true := by
  cases h with
  | text h => exact absurd rfl (notText _)
  | number first h => exact ⟨_, (number?_splits _ _ _ h).symm, number?_outside h⟩
  | beginList => exact ⟨[0x5b], rfl, List.all_eq_true.1 rfl⟩
  | endList => exact ⟨[0x5d], rfl, List.all_eq_true.1 rfl⟩
  | beginObject => exact ⟨[0x7b], rfl, List.all_eq_true.1 rfl⟩
  | endObject => exact ⟨[0x7d], rfl, List.all_eq_true.1 rfl⟩
  | comma => exact ⟨[0x2c], rfl, List.all_eq_true.1 rfl⟩
  | colon => exact ⟨[0x3a], rfl, List.all_eq_true.1 rfl⟩
  | isTrue => exact ⟨[0x74, 0x72, 0x75, 0x65], rfl, List.all_eq_true.1 rfl⟩
  | isFalse => exact ⟨[0x66, 0x61, 0x6c, 0x73, 0x65], rfl, List.all_eq_true.1 rfl⟩
  | isNull => exact ⟨[0x6e, 0x75, 0x6c, 0x6c], rfl, List.all_eq_true.1 rfl⟩

/-- What is read as a text from outside of one ends at the start of one, and is made of bytes that
stand outside. -/
theorem textBody_between {words : List Lexeme} (h : lexemes? s = some words)
    (ht : textBody s = some (raw, after)) :
    (∀ b ∈ raw, isOutside b = true) ∧
      ∃ inner left, textBody after = some (inner, left) ∧ (lexemes? left).isSome := by
  fun_induction lexemes? s generalizing words raw with
  | case1 => simp [textBody] at ht
  | case2 c tail hc ih =>
    rw [textBody_cons (by grind [isSpace]) (by grind [isSpace])] at ht
    split at ht
    · cases ht
    · next low =>
      obtain ⟨⟨raw, left⟩, ht, he⟩ := Option.map_eq_some_iff.1 ht
      cases he
      obtain ⟨hraw, more⟩ := ih h ht
      have blank : c = 0x20 := by
        simp only [isSpace, Bool.or_eq_true, beq_iff_eq] at hc
        rcases hc with ((rfl | rfl) | rfl) | rfl <;> first | rfl | exact absurd (by decide) low
      refine ⟨List.forall_mem_cons.2 ⟨?_, hraw⟩, more⟩
      rw [blank]
      decide
  | case3 => cases h
  | case4 c tail hc l left hl _ ih =>
    obtain ⟨ws, hws, -⟩ := Option.map_eq_some_iff.1 h
    have spelt := spelt_of_lexeme? hl
    by_cases text : ∃ inner, l = .text inner
    · -- the reader met the mark at which a text begins
      obtain ⟨inner, rfl⟩ := text
      cases spelt with
      | text hb =>
        simp only [textBody, Option.some.injEq, Prod.mk.injEq] at ht
        obtain ⟨rfl, rfl⟩ := ht
        exact ⟨by simp, inner, left, hb, by simp [hws]⟩
    · obtain ⟨taken, split, htaken⟩ := spelt.outside fun raw he => text ⟨raw, he⟩
      rw [split, textBody_append htaken] at ht
      obtain ⟨⟨raw, left⟩, ht, he⟩ := Option.map_eq_some_iff.1 ht
      cases he
      obtain ⟨hraw, more⟩ := ih hws ht
      exact ⟨List.forall_mem_append.2 ⟨htaken, hraw⟩, more⟩

/-! ## Texts read in place -/

/-- What reading a text in place has to do with the word: either it gives what stands in the word
and ends with it, or nothing can stand in the word, and it ends there too or goes on from
inside. -/
def Tells (b : Bytes) : Option Bytes × Bytes → Prop
  | (some plain, left) => ∃ raw, textBody b = some (raw, left) ∧ unescape raw = some plain
  | (none, left) => ∀ raw after, textBody b = some (raw, after) →
      unescape raw = none ∧ (left = after ∨ ∃ inner, textBody left = some (inner, after))

theorem Tells.append {f : Bytes → Bytes} {result : Option Bytes × Bytes} (front : Bytes)
    (h : Tells s result)
    (text : textBody (front ++ s) = (textBody s).map fun (raw, after) => (front ++ raw, after))
    (plain : ∀ raw, unescape (front ++ raw) = (unescape raw).map f) :
    Tells (front ++ s) (result.1.map f, result.2) := by
  obtain ⟨_ | inner, left⟩ := result
  · intro raw after hraw
    rw [text] at hraw
    obtain ⟨⟨raw, after⟩, hraw, he⟩ := Option.map_eq_some_iff.1 hraw
    cases he
    obtain ⟨none, place⟩ := h raw after hraw
    exact ⟨by rw [plain, none]; rfl, place⟩
  · obtain ⟨raw, hraw, hplain⟩ := h
    exact ⟨front ++ raw, by rw [text, hraw]; rfl, by rw [plain, hplain]; rfl⟩

theorem textBody_unit (a b c d : UInt8) : textBody (0x5c :: 0x75 :: a :: b :: c :: d :: s) =
    if [a, b, c, d].all isHexDigit then
      (textBody s).map fun (raw, after) => (0x5c :: 0x75 :: a :: b :: c :: d :: raw, after)
    else none := by
  simp [textBody, and_assoc]

theorem of_textBody_unit {a b c d : UInt8}
    (h : textBody (0x5c :: 0x75 :: a :: b :: c :: d :: s) = some (raw, after)) :
    [a, b, c, d].all isHexDigit = true ∧ ∃ inner,
      raw = 0x5c :: 0x75 :: a :: b :: c :: d :: inner ∧ textBody s = some (inner, after) := by
  rw [textBody_unit] at h
  split at h
  · next hex =>
    obtain ⟨⟨inner, left⟩, ht, he⟩ := Option.map_eq_some_iff.1 h
    cases he
    exact ⟨hex, inner, rfl, ht⟩
  · cases h

theorem textBody_short (h : ∀ a b c d more, s ≠ a :: b :: c :: d :: more) :
    textBody (0x5c :: 0x75 :: s) = none := by
  rw [textBody.eq_3 _ _ fun a b c d more _ => h a b c d more]
  rfl

theorem textBody_escape {e : UInt8} (h : e ≠ 0x75) : textBody (0x5c :: e :: s) =
    if isEscape e then (textBody s).map fun (raw, after) => (0x5c :: e :: raw, after) else none :=
  textBody.eq_3 _ _ fun _ _ _ _ _ he => absurd he h

theorem not_isLeading_of_isTrailing {u : Nat} (h : isTrailing u = true) :
    ¬ isLeading u = true := by
  simp only [isTrailing, isLeading, Bool.and_eq_true, decide_eq_true_eq] at h ⊢
  omega

section Unescape

variable {a b c d : UInt8} {rest : Bytes}

theorem unescape_single (hl : ¬ isLeading (unit a b c d) = true) :
    unescape (0x5c :: 0x75 :: a :: b :: c :: d :: rest) =
      if isTrailing (unit a b c d) then none
      else (unescape rest).map (String.utf8EncodeChar (Char.ofNat (unit a b c d)) ++ ·) := by
  rw [unescape.eq_def]
  simp only [hl, if_false, Bool.false_eq_true]

theorem unescape_pair {a' b' c' d' : UInt8} (ht : ¬ isTrailing (unit a b c d) = true)
    (hl : isLeading (unit a b c d) = true) :
    unescape (0x5c :: 0x75 :: a :: b :: c :: d :: 0x5c :: 0x75 :: a' :: b' :: c' :: d' :: rest) =
      if isTrailing (unit a' b' c' d') then
        (unescape rest).map (String.utf8EncodeChar (Char.ofNat
          (0x10000 + (unit a b c d - 0xd800) * 0x400 + (unit a' b' c' d' - 0xdc00))) ++ ·)
      else none :=
  (if_neg ht).trans (if_pos hl)

theorem unescape_unpaired (hl : isLeading (unit a b c d) = true)
    (h : ∀ a' b' c' d' more, rest ≠ 0x5c :: 0x75 :: a' :: b' :: c' :: d' :: more) :
    unescape (0x5c :: 0x75 :: a :: b :: c :: d :: rest) = none := by
  rw [unescape.eq_2 _ _ _ _ _ h]
  simp [hl]

end Unescape

section Failing

variable {a b c d : UInt8} {left tail : Bytes}

theorem tells_of_textBody_none (h : textBody s = none) (left : Bytes) :
    Tells s (none, left) := by
  intro raw after ht
  rw [h] at ht
  cases ht

/-- An escape by number with which nothing can stand in the word. -/
theorem tells_unit (h : [a, b, c, d].all isHexDigit = true → ∀ inner after,
      textBody tail = some (inner, after) →
      unescape (0x5c :: 0x75 :: a :: b :: c :: d :: inner) = none ∧
        (left = after ∨ ∃ more, textBody left = some (more, after))) :
    Tells (0x5c :: 0x75 :: a :: b :: c :: d :: tail) (none, left) := by
  intro raw after ht
  obtain ⟨hex, inner, rfl, inside⟩ := of_textBody_unit ht
  exact h hex inner after inside

/-- The first half of a pair, before an escape by number that is not the second. -/
theorem tells_unpaired {a' b' c' d' : UInt8} (alone : ¬isTrailing (unit a b c d) = true)
    (leading : isLeading (unit a b c d) = true)
    (unpaired : [a', b', c', d'].all isHexDigit = true → ¬isTrailing (unit a' b' c' d') = true) :
    Tells (0x5c :: 0x75 :: a :: b :: c :: d :: 0x5c :: 0x75 :: a' :: b' :: c' :: d' :: tail)
      (none, tail) := by
  apply tells_unit
  intro hex inner after ht
  obtain ⟨hex', inner, rfl, ht'⟩ := of_textBody_unit ht
  exact ⟨by rw [unescape_pair alone leading, if_neg (unpaired hex')], .inr ⟨inner, ht'⟩⟩

/-- The first half of a pair, before an escape with a letter. -/
theorem tells_half_escape {e : UInt8} (leading : isLeading (unit a b c d) = true) (he : e ≠ 0x75) :
    Tells (0x5c :: 0x75 :: a :: b :: c :: d :: 0x5c :: e :: tail) (none, tail) := by
  apply tells_unit
  intro hex inner after ht
  rw [textBody_escape he] at ht
  split at ht
  · obtain ⟨⟨rest, left⟩, ht, eq⟩ := Option.map_eq_some_iff.1 ht
    cases eq
    exact ⟨unescape_unpaired leading (by simp [he]), .inr ⟨rest, ht⟩⟩
  · cases ht

theorem tells_half_byte {e : UInt8} (leading : isLeading (unit a b c d) = true) (he : e ≠ 0x5c) :
    Tells (0x5c :: 0x75 :: a :: b :: c :: d :: e :: tail) (none, tail) := by
  apply tells_unit
  intro hex inner after ht
  by_cases quote : e = 0x22
  · subst quote
    cases ht
    exact ⟨unescape_unpaired leading (by simp), .inl rfl⟩
  · rw [textBody_cons quote he] at ht
    split at ht
    · cases ht
    · obtain ⟨⟨rest, left⟩, ht, eq⟩ := Option.map_eq_some_iff.1 ht
      cases eq
      exact ⟨unescape_unpaired leading (by simp [he]), .inr ⟨rest, ht⟩⟩

end Failing

/-- An escape for a pair that a reading in place has passed. -/
theorem Tells.append_pair {a b c d a' b' c' d' : UInt8} {result : Option Bytes × Bytes}
    (h : Tells s result)
    (hex : [a, b, c, d].all isHexDigit = true) (alone : ¬isTrailing (unit a b c d) = true)
    (leading : isLeading (unit a b c d) = true)
    (hex' : [a', b', c', d'].all isHexDigit = true)
    (trailing : isTrailing (unit a' b' c' d') = true) :
    Tells (0x5c :: 0x75 :: a :: b :: c :: d :: 0x5c :: 0x75 :: a' :: b' :: c' :: d' :: s)
      (result.1.map (String.utf8EncodeChar (Char.ofNat
        (0x10000 + (unit a b c d - 0xd800) * 0x400 + (unit a' b' c' d' - 0xdc00))) ++ ·),
        result.2) := by
  refine h.append [0x5c, 0x75, a, b, c, d, 0x5c, 0x75, a', b', c', d'] ?_
    fun raw => (unescape_pair alone leading).trans (if_pos trailing)
  simp only [List.cons_append, List.nil_append, textBody_unit, hex, hex', if_true, Option.map_map]
  rfl

/-- Reading a text in place tells what stands in the word. It fails at half of a pair, and stops
after the escape or two that it took, which is still inside of the text. -/
theorem tells_plainBody (b : Bytes) : Tells b (plainBody b) := by
  fun_induction plainBody b with
  | case1 rest => exact ⟨[], rfl, rfl⟩
  | case2 a b c d rest u bad =>
    apply tells_unit
    intro hex inner after ht
    have trailing : isTrailing u = true := by simpa [hex] using bad
    have half := not_isLeading_of_isTrailing trailing
    exact ⟨(unescape_single half).trans (if_pos trailing), .inr ⟨inner, ht⟩⟩
  | case3 a b c d u good leading a' b' c' d' rest v second body left hbody ih =>
    rw [hbody] at ih
    obtain ⟨hex, alone⟩ : [a, b, c, d].all isHexDigit = true ∧ ¬ isTrailing u = true := by
      simpa using good
    obtain ⟨hex', trailing⟩ : [a', b', c', d'].all isHexDigit = true ∧ isTrailing v = true := by
      simpa using second
    exact ih.append_pair hex alone leading hex' trailing
  | case4 a b c d u good leading a' b' c' d' rest v second =>
    have alone : ¬ isTrailing u = true := fun trailing => by simp [trailing] at good
    exact tells_unpaired alone leading fun hex' => by simpa [hex'] using second
  | case5 a b c d u good leading tail short =>
    apply tells_unit
    intro hex inner after ht
    rw [textBody_short fun a b c d more => short a b c d more] at ht
    cases ht
  | case6 a b c d u good leading rest notUnit notShort =>
    cases rest with
    | nil => exact tells_unit fun _ _ _ ht => by simp [textBody] at ht
    | cons e more => exact tells_half_escape leading fun he => notShort more (by rw [he])
  | case7 a b c d u good leading rest notUnit notShort notEscape =>
    cases rest with
    | nil => exact tells_unit fun _ _ _ ht => by simp [textBody] at ht
    | cons e more => exact tells_half_byte leading fun he => notEscape more (by rw [he])
  | case8 a b c d rest u good alone body left hbody ih =>
    rw [hbody] at ih
    have hex : [a, b, c, d].all isHexDigit = true ∧ ¬ isTrailing u = true := by
      simpa using good
    exact ih.append [0x5c, 0x75, a, b, c, d] ((textBody_unit a b c d).trans (if_pos hex.1))
      fun raw => (unescape_single alone).trans (if_neg hex.2)
  | case9 tail short =>
    exact tells_of_textBody_none (textBody_short fun a b c d more => short a b c d more) _
  | case10 e rest _ notUnit he body left hbody ih =>
    rw [hbody] at ih
    exact ih.append [0x5c, e] ((textBody_escape notUnit).trans (if_pos he)) fun raw =>
      unescape.eq_3 _ _ fun _ _ _ _ _ eq => absurd eq notUnit
  | case11 e rest _ notUnit he =>
    exact tells_of_textBody_none ((textBody_escape notUnit).trans (if_neg he)) _
  | case12 c rest quote _ _ escape bad =>
    refine tells_of_textBody_none ?_ _
    by_cases hc : c = 0x5c
    · cases rest with
      | nil => simp [hc, textBody]
      | cons e more => exact absurd rfl (escape e more hc)
    · have low : c < 0x20 := by simpa [hc] using bad
      rw [textBody_cons quote hc, if_pos low]
  | case13 c rest quote _ _ _ good body left hbody ih =>
    rw [hbody] at ih
    obtain ⟨low, escape⟩ : ¬ c < 0x20 ∧ c ≠ 0x5c := by simpa using good
    exact ih.append [c] ((textBody_cons quote escape).trans (if_neg low)) fun raw =>
      unescape.eq_4 _ _ (fun _ _ _ _ _ eq => absurd eq escape) fun _ _ eq => absurd eq escape
  | case14 => exact tells_of_textBody_none rfl _

end Strongbox.Json
